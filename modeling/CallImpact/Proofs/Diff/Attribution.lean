import CallImpact.Diff.Hunk
import CallImpact.Proofs.Text.Reading
import Mathlib.Data.List.Induction

/-!
# Files of hunks

A hunk belongs to the file whose header is the last one before it, and what the lines since that
header say about the file is said of the hunk (`hunksBy`). Reading keeps to this for the headers
whose path it can read, and passes over the others (`Knows.line`, `parse_eq`). So the hunks below
a header that cannot be read are taken for those of an earlier file, if there is one, and in no
other place are hunks and files mixed up (`parse_by_header`, `hunks_below_unreadable_header`).
-/

namespace CallImpact.Diff

/-! ## Lines -/

/-- Whether a line is the header of a file. Its path may be written so that it cannot be read. -/
def isHeader (line : String) : Bool :=
  Text.startsWith line "diff --git "

/-- Whether a line is a header whose path can be read. -/
def namesFile (line : String) : Bool :=
  (fileHeader? line).isSome

/-- Whether a line says that the file at hand is deleted. -/
def marksDeleted (line : String) : Bool :=
  Text.startsWith line "deleted file mode"

/-- Whether a line says that the file at hand is new. -/
def marksAdded (line : String) : Bool :=
  Text.startsWith line "new file mode"

section
variable {line : String}

/-- A line with a path that can be read is a header. -/
theorem isHeader_of_namesFile (h : namesFile line) : isHeader line := by
  rw [isHeader, Text.startsWith]
  cases hrest : Text.after? "diff --git " line with
  | none => simp [namesFile, fileHeader?, hrest] at h
  | some rest => rfl

/-- The first line of a hunk starts with its mark. -/
theorem startsWith_of_hunkHeader? (h : (hunkHeader? line).isSome) : Text.startsWith line "@@ " := by
  rw [Text.startsWith]
  cases hrest : Text.after? "@@ " line with
  | none => simp [hunkHeader?, hrest] at h
  | some rest => rfl

/-- The first line of a hunk is no other line that reading looks for. -/
theorem plain_of_hunkHeader? (h : (hunkHeader? line).isSome) :
    isHeader line = false ∧ marksDeleted line = false ∧ marksAdded line = false := by
  have hstart := startsWith_of_hunkHeader? h
  exact ⟨Text.startsWith_eq_false_of_apart hstart (by decide) (by decide),
    Text.startsWith_eq_false_of_apart hstart (by decide) (by decide),
    Text.startsWith_eq_false_of_apart hstart (by decide) (by decide)⟩

/-- No line says both that a file is deleted and that it is new. -/
theorem marksAdded_eq_false_of_marksDeleted (h : marksDeleted line) : marksAdded line = false :=
  Text.startsWith_eq_false_of_apart h (by decide) (by decide)

end

/-! ## The header of a hunk -/

section
variable (p : String → Bool)

/-- The last of the lines so far that counts as a header. -/
def lastHeader? (before : List String) : Option String :=
  before.reverse.find? p

/-- The lines since the last one that counts as a header, the latest first. -/
def sinceHeader (before : List String) : List String :=
  before.reverse.takeWhile (!p ·)

/-- The hunk that a line starts: its file is that of the last header, and what the lines since then
say is said of it. Without a header there is no hunk, nor when its path cannot be read. -/
def hunkAt? (before : List String) (line : String) : Option Hunk := do
  let header ← lastHeader? p before
  let file ← fileHeader? header
  let ((oldStart, oldCount), (newStart, newCount)) ← hunkHeader? line
  return { file, oldStart, oldCount, newStart, newCount,
           deleted := (sinceHeader p before).any marksDeleted,
           added := (sinceHeader p before).any marksAdded }

/-- The hunks that the lines of a diff start, each by what stands before it. -/
def hunksBy (lines : List String) : List Hunk :=
  lines.zipIdx.filterMap fun (line, i) => hunkAt? p (lines.take i) line

variable (before : List String) (line : String)

/-- After one more line, that line is the last header, or the last one is as before. -/
theorem lastHeader?_append :
    lastHeader? p (before ++ [line]) = if p line then some line else lastHeader? p before := by
  rw [lastHeader?, List.reverse_append, List.reverse_singleton, List.singleton_append,
    List.find?_cons, lastHeader?]
  cases p line <;> rfl

/-- After one more line, nothing stands since the last header when it is one, and else it stands
first. -/
theorem sinceHeader_append :
    sinceHeader p (before ++ [line]) = if p line then [] else line :: sinceHeader p before := by
  rw [sinceHeader, List.reverse_append, List.reverse_singleton, List.singleton_append,
    List.takeWhile_cons, sinceHeader]
  cases p line <;> rfl

variable {p before line}

/-- Without a header before it, a line starts no hunk. -/
theorem hunkAt?_of_lastHeader?_none (h : lastHeader? p before = none) :
    hunkAt? p before line = none := by
  rw [hunkAt?, h]
  rfl

/-- A line that gives no ranges starts no hunk. -/
theorem hunkAt?_of_hunkHeader?_none (h : hunkHeader? line = none) :
    hunkAt? p before line = none := by
  rw [hunkAt?, h]
  cases lastHeader? p before with
  | none => rfl
  | some header => cases fileHeader? header <;> simp

variable (p before line)

/-- One more line adds the hunk that it starts, if it starts one. -/
theorem hunksBy_append :
    hunksBy p (before ++ [line]) = hunksBy p before ++ (hunkAt? p before line).toList := by
  have hbefore : before.zipIdx.filterMap
      (fun (x : String × Nat) => hunkAt? p ((before ++ [line]).take x.2) x.1) =
        hunksBy p before := by
    refine List.filterMap_congr fun x hx => ?_
    have hlt : x.2 < before.length := by simpa using List.snd_lt_of_mem_zipIdx hx
    rw [List.take_append_of_le_length hlt.le]
  rw [hunksBy, List.zipIdx_append, List.filterMap_append, hbefore]
  cases h : hunkAt? p before line <;> simp [h]

end

/-! ## Reading -/

/-- The hunk that a line starts, by what was read before. -/
def Reading.hunk? (r : Reading) (line : String) : Option Hunk := do
  let file ← r.file
  let ((oldStart, oldCount), (newStart, newCount)) ← hunkHeader? line
  return { file, oldStart, oldCount, newStart, newCount, deleted := r.deleted, added := r.added }

/-- What one line does: a header that can be read starts afresh, and other lines leave the file at
hand, add what they say of it, or start a hunk. -/
theorem Reading.line_eq (r : Reading) (line : String) :
    r.line line =
      { file := if namesFile line then fileHeader? line else r.file
        deleted := !namesFile line && (marksDeleted line || r.deleted)
        added := !namesFile line && (marksAdded line || r.added)
        hunks := (r.hunk? line).toList ++ r.hunks } := by
  have hplain : marksDeleted line ∨ marksAdded line ∨ isHeader line → r.hunk? line = none := by
    intro hline
    have hnone : hunkHeader? line = none := by
      rw [← Option.not_isSome_iff_eq_none]
      intro hsome
      obtain ⟨hheader, hdeleted, hadded⟩ := plain_of_hunkHeader? hsome
      simp [hheader, hdeleted, hadded] at hline
    cases hfile : r.file <;> simp [Reading.hunk?, hfile, hnone]
  rw [Reading.line, ← marksDeleted, ← marksAdded]
  cases hfile : fileHeader? line with
  | some path =>
    have hnames : namesFile line := by simp [namesFile, hfile]
    rw [hplain (.inr (.inr (isHeader_of_namesFile hnames)))]
    simp [hnames]
  | none =>
    have hnames : namesFile line = false := by simp [namesFile, hfile]
    by_cases hdeleted : marksDeleted line
    · have hadded := marksAdded_eq_false_of_marksDeleted hdeleted
      rw [hplain (.inl hdeleted)]
      simp [hnames, hdeleted, hadded]
    · by_cases hadded : marksAdded line
      · rw [hplain (.inr (.inl hadded))]
        simp [hnames, hdeleted, hadded]
      · obtain ⟨file, deleted, added, hunks⟩ := r
        simp only [hnames, hdeleted, hadded, Reading.hunk?]
        cases file <;> cases hunkHeader? line <;> simp

/-- Whether reading knows what the last header before a place says, and has the hunks so far. -/
structure Knows (r : Reading) (before : List String) : Prop where
  file : r.file = (lastHeader? namesFile before).bind fileHeader?
  deleted : r.deleted = (sinceHeader namesFile before).any marksDeleted
  added : r.added = (sinceHeader namesFile before).any marksAdded
  hunks : r.hunks.reverse = hunksBy namesFile before

/-- Before the first line nothing is known. -/
theorem knows_nil : Knows {} [] := ⟨rfl, rfl, rfl, rfl⟩

/-- The hunk of a line goes by the last header that could be read. -/
theorem Knows.hunk?_eq {r : Reading} {before : List String} (h : Knows r before) (line : String) :
    r.hunk? line = hunkAt? namesFile before line := by
  rw [Reading.hunk?, hunkAt?, h.file, h.deleted, h.added]
  cases lastHeader? namesFile before <;> rfl

/-- Reading a line keeps that reading knows what the last header says. -/
theorem Knows.line {r : Reading} {before : List String} (h : Knows r before) (line : String) :
    Knows (r.line line) (before ++ [line]) := by
  have hhunk := h.hunk?_eq line
  rw [Reading.line_eq, hhunk]
  refine ⟨?_, ?_, ?_, ?_⟩
  · rw [lastHeader?_append]
    split
    · rfl
    · exact h.file
  · rw [sinceHeader_append, h.deleted]
    split <;> simp_all
  · rw [sinceHeader_append, h.added]
    split <;> simp_all
  · rw [List.reverse_append, h.hunks, hunksBy_append]
    cases hunkAt? namesFile before line <;> rfl

/-- After any lines, reading knows what the last header says and has their hunks. -/
theorem knows_foldl (lines : List String) : Knows (lines.foldl Reading.line {}) lines := by
  induction lines using List.reverseRecOn with
  | nil => exact knows_nil
  | append_singleton before line ih =>
    rw [List.foldl_append, List.foldl_cons, List.foldl_nil]
    exact ih.line line

/-- Reading attributes every hunk to the last header before it whose path can be read. -/
theorem parse_eq (text : String) : parse text = hunksBy namesFile (Text.lines text) :=
  (knows_foldl (Text.lines text)).hunks

/-! ## Headers that cannot be read -/

/-- Whether the first line of a hunk stands below a header that cannot be read, and an earlier one
can. -/
structure IsMisled (before : List String) (line : String) : Prop where
  hunk : (hunkHeader? line).isSome
  unreadable : ∃ header, lastHeader? isHeader before = some header ∧ namesFile header = false
  earlier : ∃ header ∈ before, namesFile header

section
variable {before : List String} {header line : String}

/-- Where the last header can be read, it is also the last of those that can. -/
theorem readable_of_lastHeader? (h : lastHeader? isHeader before = some header)
    (hnames : namesFile header) :
    lastHeader? namesFile before = some header ∧
      sinceHeader namesFile before = sinceHeader isHeader before := by
  unfold lastHeader? sinceHeader at *
  generalize before.reverse = lines at *
  induction lines with
  | nil => cases h
  | cons line lines ih =>
    rw [List.find?_cons] at h ⊢
    rw [List.takeWhile_cons, List.takeWhile_cons]
    cases hline : isHeader line with
    | true =>
      obtain rfl : line = header := by simpa [hline] using h
      simp [hnames]
    | false =>
      have hskip : namesFile line = false := by
        rw [← Bool.not_eq_true]
        intro hnames
        simp [isHeader_of_namesFile hnames] at hline
      rw [hline] at h
      obtain ⟨hlast, hsince⟩ := ih h
      simp [hskip, hlast, hsince]

/-- Where there is no header, there is none with a path that can be read. -/
theorem lastHeader?_namesFile_of_none (h : lastHeader? isHeader before = none) :
    lastHeader? namesFile before = none := by
  rw [lastHeader?, List.find?_eq_none] at *
  exact fun line hline hnames => h line hline (isHeader_of_namesFile hnames)

/-- Below a header that cannot be read no line starts a hunk. -/
theorem hunkAt?_of_unreadable (h : lastHeader? isHeader before = some header)
    (hnames : namesFile header = false) (line : String) : hunkAt? isHeader before line = none := by
  have hnone : fileHeader? header = none := by simpa [namesFile] using hnames
  rw [hunkAt?, h, Option.bind_eq_bind, Option.bind_some, hnone]
  rfl

/-- A hunk goes to the file of its own header, unless that cannot be read. -/
theorem hunkAt?_eq (h : ¬ IsMisled before line) :
    hunkAt? isHeader before line = hunkAt? namesFile before line := by
  cases hlast : lastHeader? isHeader before with
  | none =>
    rw [hunkAt?_of_lastHeader?_none hlast,
      hunkAt?_of_lastHeader?_none (lastHeader?_namesFile_of_none hlast)]
  | some header =>
    cases hnames : namesFile header with
    | true =>
      obtain ⟨hlast', hsince⟩ := readable_of_lastHeader? hlast hnames
      rw [hunkAt?, hunkAt?, hlast, hlast', hsince]
    | false =>
      rw [hunkAt?_of_unreadable hlast hnames, eq_comm]
      by_cases hhunk : (hunkHeader? line).isSome
      · -- no header before can be read, or the line would be misled
        refine hunkAt?_of_lastHeader?_none ?_
        rw [lastHeader?, List.find?_eq_none]
        exact fun earlier hmem hread =>
          h ⟨hhunk, ⟨header, hlast, hnames⟩, earlier, List.mem_reverse.mp hmem, hread⟩
      · exact hunkAt?_of_hunkHeader?_none (Option.not_isSome_iff_eq_none.mp hhunk)

/-- A misled hunk has no file of its own, but is attributed to one. -/
theorem IsMisled.hunkAt?_eq (h : IsMisled before line) :
    hunkAt? isHeader before line = none ∧ (hunkAt? namesFile before line).isSome := by
  obtain ⟨hhunk, ⟨header, hlast, hnames⟩, earlier, hmem, hread⟩ := h
  refine ⟨hunkAt?_of_unreadable hlast hnames line, ?_⟩
  obtain ⟨found, hfound⟩ : ∃ found, lastHeader? namesFile before = some found := by
    rw [← Option.isSome_iff_exists, lastHeader?, List.find?_isSome]
    exact ⟨earlier, List.mem_reverse.mpr hmem, hread⟩
  obtain ⟨file, hfile⟩ := Option.isSome_iff_exists.mp
    (List.find?_some (p := namesFile) hfound : namesFile found)
  obtain ⟨ranges, hranges⟩ := Option.isSome_iff_exists.mp hhunk
  simp [hunkAt?, hfound, hfile, hranges]

end

section
variable {α β : Type} {f g : α → Option β} {xs : List α}

/-- Leaving out some of what is given leaves no more. -/
theorem length_filterMap_le (h : ∀ x ∈ xs, g x = f x ∨ g x = none) :
    (xs.filterMap g).length ≤ (xs.filterMap f).length := by
  induction xs with
  | nil => simp
  | cons x xs ih =>
    obtain ⟨hx, hxs⟩ := List.forall_mem_cons.mp h
    have htail := ih hxs
    cases hf : f x with
    | none => simpa [hf, hx.elim (·.trans hf) id] using htail
    | some b => rcases hx with hx | hx <;> simp [hx, hf] <;> omega

/-- What is given stays the same only when nothing is left out of it. -/
theorem filterMap_eq_iff (h : ∀ x ∈ xs, g x = f x ∨ g x = none ∧ (f x).isSome) :
    xs.filterMap f = xs.filterMap g ↔ ∀ x ∈ xs, g x = f x := by
  refine ⟨fun heq => ?_, fun hall => List.filterMap_congr fun x hx => (hall x hx).symm⟩
  induction xs with
  | nil => simp
  | cons x xs ih =>
    obtain ⟨hx, hxs⟩ := List.forall_mem_cons.mp h
    rcases hx with hx | ⟨hnone, hsome⟩
    · refine List.forall_mem_cons.mpr ⟨hx, ih hxs ?_⟩
      cases hf : f x <;> simpa [hx, hf] using heq
    · -- without what is left out, the lengths differ
      obtain ⟨b, hb⟩ := Option.isSome_iff_exists.mp hsome
      have hless := length_filterMap_le fun y hy => (hxs y hy).imp_right And.left
      have hmore := congrArg List.length heq
      simp only [List.filterMap_cons, hnone, hb, List.length_cons] at hmore
      omega

end

/-- Every hunk is attributed to the last header before it whose path can be read; these are the
hunks of the headers themselves exactly when no hunk below a header that cannot be read comes after
one that can. -/
theorem parse_by_header (text : String) :
    parse text = hunksBy namesFile (Text.lines text) ∧
      (parse text = hunksBy isHeader (Text.lines text) ↔
        ∀ i line, (Text.lines text)[i]? = some line →
          ¬ IsMisled ((Text.lines text).take i) line) := by
  refine ⟨parse_eq text, ?_⟩
  generalize hlines : Text.lines text = lines
  have hagree : ∀ x ∈ lines.zipIdx,
      hunkAt? isHeader (lines.take x.2) x.1 = hunkAt? namesFile (lines.take x.2) x.1 ∨
        hunkAt? isHeader (lines.take x.2) x.1 = none ∧
          (hunkAt? namesFile (lines.take x.2) x.1).isSome := by
    intro x _
    by_cases hmisled : IsMisled (lines.take x.2) x.1
    · exact .inr hmisled.hunkAt?_eq
    · exact .inl (hunkAt?_eq hmisled)
  rw [parse_eq, hlines, hunksBy, hunksBy, filterMap_eq_iff hagree]
  constructor
  · intro hall i line hline hmisled
    have heq := hall (line, i) (List.mk_mem_zipIdx_iff_getElem?.mpr hline)
    obtain ⟨hnone, hsome⟩ := hmisled.hunkAt?_eq
    rw [← heq, hnone] at hsome
    cases hsome
  · intro hall x hx
    exact hunkAt?_eq (hall x.2 x.1 (List.mem_zipIdx_iff_getElem?.mp hx))

/-- The lines of a diff in which a file is edited, and another one is added whose name is quoted. -/
def quotedLines : List String :=
  ["diff --git a/run.go b/run.go", "index 1111111..2222222 100644", "--- a/run.go", "+++ b/run.go",
    "@@ -3 +3 @@", "-\told()", "+\tnew()",
    "diff --git \"a/caf\\303\\251.go\" \"b/caf\\303\\251.go\"", "new file mode 100644",
    "index 0000000..3333333", "--- /dev/null", "+++ \"b/caf\\303\\251.go\"", "@@ -0,0 +1 @@",
    "+package app"]

/-- That diff, each line with its end. -/
def quotedDiff : String :=
  String.join (quotedLines.map (· ++ "\n"))

/-- The lines of that diff. -/
theorem lines_quotedDiff : Text.lines quotedDiff = quotedLines := by
  have hends : ∀ line ∈ quotedLines, '\n' ∉ line.toList := by decide +kernel
  rw [quotedDiff, Text.lines_join hends]
  decide +kernel

/-- A header with a quoted path cannot be read, and the hunk below it goes to the file before, as if
that were new. -/
theorem hunks_below_unreadable_header :
    parse quotedDiff =
      [⟨"run.go", 3, 1, 3, 1, false, false⟩, ⟨"run.go", 0, 0, 1, 1, false, true⟩] ∧
    hunksBy isHeader (Text.lines quotedDiff) = [⟨"run.go", 3, 1, 3, 1, false, false⟩] := by
  rw [parse, lines_quotedDiff]
  decide +kernel

end CallImpact.Diff
