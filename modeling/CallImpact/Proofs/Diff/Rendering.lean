import CallImpact.Diff.Hunk
import CallImpact.Proofs.Text.Reading

/-!
# Reading a rendered diff

A diff has a block for each file: a header, remarks about the file, and hunks. Each of its lines is
read for what it is, whatever text it carries (`Line.read_text`): the text of a hunk may look like a
header, but stands behind a mark. So the hunks of all blocks are read back from the rendered text
(`parse_render`).
-/

namespace CallImpact.Diff

/-! ## Blocks of a diff -/

/-- A text of one line. -/
structure OneLine where
  text : String
  single : '\n' ∉ text.toList

/-- A path as the header of a file has it: on one line, and with nothing in it that could be taken
for the start of the path. -/
structure PrintedPath extends OneLine where
  unreturned : '\r' ∉ text.toList
  apart : ¬ Text.contains text " b/"

/-- Lines of one version. A count of one may be left out. -/
structure PrintedRange where
  start : UInt32
  count : UInt32
  brief : Bool

/-- What is said about a file before its hunks, apart from its kind. -/
inductive Remark where
  | index
  | oldMode
  | newMode
  | similarity
  | dissimilarity
  | renameFrom
  | renameTo
  | copyFrom
  | copyTo
  | oldFile
  | newFile

/-- What a line of a hunk starts with. -/
inductive Mark where
  | added
  | removed
  | kept
  | note

/-- Whether a file is new or deleted, with its mode, or only edited. -/
inductive FileKind where
  | edited
  | added (mode : OneLine)
  | deleted (mode : OneLine)

/-- A hunk, with what follows the line numbers in its first line, and its other lines. -/
structure PrintedHunk where
  old : PrintedRange
  new : PrintedRange
  heading : OneLine
  body : List (Mark × OneLine)

/-- The part of a diff that is about one file. The line about the kind of the file stands between
remarks. -/
structure FileBlock where
  oldPath : OneLine
  path : PrintedPath
  kind : FileKind
  before : List (Remark × OneLine)
  after : List (Remark × OneLine)
  hunks : List PrintedHunk

/-! ## Rendering -/

def PrintedRange.text (r : PrintedRange) : String :=
  toString r.start.toNat ++
    if r.brief && r.count = 1 then "" else "," ++ toString r.count.toNat

def Remark.lead : Remark → String
  | .index => "index "
  | .oldMode => "old mode "
  | .newMode => "new mode "
  | .similarity => "similarity index "
  | .dissimilarity => "dissimilarity index "
  | .renameFrom => "rename from "
  | .renameTo => "rename to "
  | .copyFrom => "copy from "
  | .copyTo => "copy to "
  | .oldFile => "--- "
  | .newFile => "+++ "

def Mark.lead : Mark → String
  | .added => "+"
  | .removed => "-"
  | .kept => " "
  | .note => "\\"

/-- A line of a diff. -/
inductive Line where
  | file (oldPath : OneLine) (path : PrintedPath)
  | added (mode : OneLine)
  | deleted (mode : OneLine)
  | remark (about : Remark) (rest : OneLine)
  | hunk (old new : PrintedRange) (heading : OneLine)
  | body (mark : Mark) (rest : OneLine)

namespace Line

/-- What marks a line. -/
def lead : Line → String
  | .file oldPath _ => "diff --git a/" ++ oldPath.text ++ " b/"
  | .added _ => "new file mode "
  | .deleted _ => "deleted file mode "
  | .remark about _ => about.lead
  | .hunk old new _ => "@@ -" ++ old.text ++ " +" ++ new.text ++ " @@"
  | .body mark _ => mark.lead

/-- What a line carries. -/
def rest : Line → OneLine
  | .file _ path => path.toOneLine
  | .added text | .deleted text | .remark _ text | .hunk _ _ text | .body _ text => text

def text (l : Line) : String :=
  l.lead ++ l.rest.text

end Line

def PrintedHunk.lines (h : PrintedHunk) : List Line :=
  .hunk h.old h.new h.heading :: h.body.map fun x => .body x.1 x.2

def FileKind.lines : FileKind → List Line
  | .edited => []
  | .added mode => [.added mode]
  | .deleted mode => [.deleted mode]

def FileBlock.lines (b : FileBlock) : List Line :=
  .file b.oldPath b.path :: ((b.before.map fun x => .remark x.1 x.2) ++ b.kind.lines ++
    (b.after.map fun x => .remark x.1 x.2) ++ b.hunks.flatMap PrintedHunk.lines)

/-- The text of a diff. Every line ends in a newline. -/
def render (blocks : List FileBlock) : String :=
  String.join ((blocks.flatMap FileBlock.lines).map (·.text ++ "\n"))

/-! ## What a diff says -/

def FileKind.isAdded : FileKind → Bool
  | .added _ => true
  | .edited | .deleted _ => false

def FileKind.isDeleted : FileKind → Bool
  | .deleted _ => true
  | .edited | .added _ => false

/-- A hunk of a file. -/
def PrintedHunk.read (h : PrintedHunk) (file : String) (deleted added : Bool) : Hunk where
  file := file
  oldStart := h.old.start.toNat
  oldCount := h.old.count.toNat
  newStart := h.new.start.toNat
  newCount := h.new.count.toNat
  deleted := deleted
  added := added

/-- The hunks of a block. -/
def FileBlock.read (b : FileBlock) : List Hunk :=
  b.hunks.map (·.read b.path.text b.kind.isDeleted b.kind.isAdded)

/-- What is known after a line. -/
def Line.read (r : Reading) : Line → Reading
  | .file _ path => { r with file := some path.text, deleted := false, added := false }
  | .added _ => { r with added := true }
  | .deleted _ => { r with deleted := true }
  | .hunk old new heading =>
    match r.file with
    | some path =>
      { r with hunks := PrintedHunk.read ⟨old, new, heading, []⟩ path r.deleted r.added :: r.hunks }
    | none => r
  | .remark _ _ | .body _ _ => r

/-! ## Ranges -/

namespace PrintedRange

/-- A range is written with digits and a comma. -/
theorem mem_text {r : PrintedRange} {c : Char} (h : c ∈ r.text.toList) :
    Text.isDecimalDigit c ∨ c = ',' := by
  rw [text, String.toList_append, List.mem_append] at h
  rcases h with h | h
  · exact .inl (Text.isDecimalDigit_of_mem_toString h)
  · split at h
    · simp at h
    · rw [String.toList_append, List.mem_append] at h
      rcases h with h | h
      · exact .inr (by simpa using h)
      · exact .inl (Text.isDecimalDigit_of_mem_toString h)

/-- Numbers and commas are no blanks, and there is no end of a line or of a header among them. -/
theorem plain_of_mem_text {r : PrintedRange} {c : Char} (h : c ∈ r.text.toList) :
    Text.isBlank c = false ∧ c ≠ '@' := by
  rcases mem_text h with hdigit | rfl
  · refine ⟨Text.isBlank_of_isDecimalDigit hdigit, ?_⟩
    rintro rfl
    exact absurd hdigit (by decide)
  · exact ⟨by decide, by decide⟩

/-- A range is read as it was printed. -/
theorem lineRange?_text (sign : String) (r : PrintedRange) :
    lineRange? sign (sign ++ r.text) = some (r.start.toNat, r.count.toNat) := by
  have hstart : Text.readNat? Text.max32 (toString r.start.toNat) = some r.start.toNat :=
    Text.readNat?_toString (Nat.le_of_lt_succ r.start.toNat_lt)
  have hcount : Text.readNat? Text.max32 (toString r.count.toNat) = some r.count.toNat :=
    Text.readNat?_toString (Nat.le_of_lt_succ r.count.toNat_lt)
  have hcomma : ',' ∉ (toString r.start.toNat).toList := fun hmem =>
    absurd (Text.isDecimalDigit_of_mem_toString hmem) (by decide)
  rw [lineRange?, Text.after?_append, text]
  generalize toString r.start.toNat = start at hstart hcomma
  generalize toString r.count.toNat = count at hcount
  split
  · rename_i hbrief
    obtain ⟨-, hone⟩ := Bool.and_eq_true_iff.mp hbrief
    have hnone : Text.cut? "," start = none := by
      rw [Text.cut?_eq_none_iff]
      exact fun hwithin => hcomma (hwithin.subset (by decide))
    rw [String.append_empty]
    simp [hnone, hstart, of_decide_eq_true hone]
  · have hcut : Text.cut? "," (start ++ ("," ++ count)) = some (start, count) := by
      rw [← String.append_assoc]
      exact Text.cut?_append rfl hcomma count
    simp [hcut, hstart, hcount]

end PrintedRange

/-! ## Lines -/

/-- The marks that lines are read for. -/
def marks : List String :=
  ["diff --git ", "deleted file mode", "new file mode", "@@ "]

/-- A line that starts with none of the marks is passed over. -/
theorem Reading.line_of_unmarked {start : String} (r : Reading) (rest : String)
    (h : ∀ mark ∈ marks, ¬ mark.toList <+: start.toList ∧ ¬ start.toList <+: mark.toList) :
    r.line (start ++ rest) = r := by
  have hnone : ∀ mark ∈ marks, Text.after? mark (start ++ rest) = none := fun mark hmark =>
    Text.after?_eq_none_of_apart (h mark hmark).1 (h mark hmark).2 rest
  simp only [marks, List.forall_mem_cons] at hnone
  obtain ⟨hfile, hdeleted, hadded, hhunk, -⟩ := hnone
  simp [Reading.line, fileHeader?, hunkHeader?, Text.startsWith, hfile, hdeleted, hadded, hhunk]

/-- The header of a file gives the path, which starts after the last ` b/`. -/
theorem fileHeader?_append (oldPath : String) {path : String} (h : ¬ Text.contains path " b/") :
    fileHeader? ("diff --git a/" ++ oldPath ++ " b/" ++ path) = some path := by
  have hline : "diff --git a/" ++ oldPath ++ " b/" ++ path =
      "diff --git " ++ ("a/" ++ oldPath ++ " b/" ++ path) := by simp [← String.toList_inj]
  have hrev : ("a/" ++ oldPath ++ " b/" ++ path).toList.reverse =
      path.toList.reverse ++ (['/', 'b', ' '] ++ ("a/" ++ oldPath).toList.reverse) := by simp
  have hcut : Text.cutList? ['/', 'b', ' '] ("a/" ++ oldPath ++ " b/" ++ path).toList.reverse =
      some (path.toList.reverse, ("a/" ++ oldPath).toList.reverse) := by
    rw [hrev]
    refine Text.cutList?_append (by simp) _ _ fun before after hsplit hne => ?_
    rw [Option.eq_none_iff_forall_ne_some]
    intro rest hlead
    rw [Text.afterLead?_eq_some_iff] at hlead
    -- the mark would start inside the path
    rcases after with _ | ⟨c, _ | ⟨d, _ | ⟨e, after⟩⟩⟩
    · exact hne rfl
    · simp at hlead
    · simp at hlead
    · simp only [List.cons_append, List.nil_append, List.cons.injEq] at hlead
      obtain ⟨rfl, rfl, rfl, -⟩ := hlead
      refine h (Text.contains_iff.mpr ?_)
      have hpath := congrArg List.reverse hsplit
      rw [List.reverse_reverse] at hpath
      exact ⟨after.reverse, before.reverse, by simp [← hpath]⟩
  rw [fileHeader?, hline, Text.after?_append]
  rw [Option.bind_eq_bind, Option.bind_some, Text.afterLast?, Text.cutLastList?]
  rw [show " b/".toList.reverse = ['/', 'b', ' '] from rfl, hcut]
  simp

/-- The first line of a hunk gives the lines of both versions, whatever its heading is. -/
theorem hunkHeader?_append (old new : PrintedRange) (heading : String) :
    hunkHeader? ("@@ -" ++ old.text ++ " +" ++ new.text ++ " @@" ++ heading) =
      some ((old.start.toNat, old.count.toNat), (new.start.toNat, new.count.toNat)) := by
  have hline : "@@ -" ++ old.text ++ " +" ++ new.text ++ " @@" ++ heading =
      "@@ " ++ (("-" ++ old.text) ++ " " ++ ("+" ++ new.text) ++ " @@" ++ heading) := by
    simp [← String.toList_inj]
  have hat : '@' ∉ (("-" ++ old.text) ++ " " ++ ("+" ++ new.text)).toList := by
    intro hmem
    simp only [String.toList_append, List.mem_append] at hmem
    rcases hmem with ((hmem | hmem) | hmem) | hmem | hmem
    · exact absurd hmem (by decide)
    · exact (PrintedRange.plain_of_mem_text hmem).2 rfl
    · exact absurd hmem (by decide)
    · exact absurd hmem (by decide)
    · exact (PrintedRange.plain_of_mem_text hmem).2 rfl
  have hcut : Text.cut? " @@" (("-" ++ old.text) ++ " " ++ ("+" ++ new.text) ++ " @@" ++ heading) =
      some (("-" ++ old.text) ++ " " ++ ("+" ++ new.text), heading) :=
    Text.cut?_append_of_not_mem rfl (by decide : ' ' ≠ '@') hat heading
  have hword : ∀ (sign : String) (r : PrintedRange), sign = "-" ∨ sign = "+" →
      sign ++ r.text ≠ "" ∧ ∀ c ∈ (sign ++ r.text).toList, Text.isBlank c = false := by
    intro sign r hsign
    refine ⟨?_, fun c hc => ?_⟩
    · rcases hsign with rfl | rfl <;> simp
    · rw [String.toList_append, List.mem_append] at hc
      rcases hc with hc | hc
      · rcases hsign with rfl | rfl
        · exact (List.mem_singleton.mp hc) ▸ by decide
        · exact (List.mem_singleton.mp hc) ▸ by decide
      · exact (PrintedRange.plain_of_mem_text hc).1
  have hwords : Text.words (("-" ++ old.text) ++ " " ++ ("+" ++ new.text)) =
      ["-" ++ old.text, "+" ++ new.text] :=
    Text.words_pair (hword "-" old (.inl rfl)).1 (hword "+" new (.inr rfl)).1
      (hword "-" old (.inl rfl)).2 (hword "+" new (.inr rfl)).2
  rw [hunkHeader?, hline, Text.after?_append]
  simp [hcut, hwords, PrintedRange.lineRange?_text]

/-- A line that is no header of a file and starts with the mark of a whole file that is gone or new
sets the flag of the mark. -/
theorem Reading.line_mode (r : Reading) (start rest : String)
    (hwhole : ∀ mark ∈ marks, ¬ start.toList <+: mark.toList)
    (hfile : ¬ "diff --git ".toList <+: start.toList)
    (hmode : Text.startsWith start "deleted file mode" ∨ Text.startsWith start "new file mode") :
    r.line (start ++ rest) =
      if Text.startsWith start "deleted file mode" then { r with deleted := true }
      else { r with added := true } := by
  simp only [marks, List.forall_mem_cons] at hwhole
  obtain ⟨hwfile, hwdeleted, hwadded, -⟩ := hwhole
  have hnone : Text.after? "diff --git " (start ++ rest) = none :=
    Text.after?_eq_none_of_apart hfile hwfile rest
  simp only [Reading.line, fileHeader?, hnone, Text.startsWith_append hwdeleted,
    Text.startsWith_append hwadded]
  by_cases hdeleted : Text.startsWith start "deleted file mode"
  · simp [hdeleted]
  · simp [hdeleted, hmode.resolve_left hdeleted]

/-- The first line of a hunk is read for the hunk. -/
theorem Reading.line_hunk (r : Reading) (old new : PrintedRange) (heading : OneLine)
    (text : String) :
    r.line ("@@ -" ++ old.text ++ " +" ++ new.text ++ " @@" ++ text) =
      (Line.hunk old new heading).read r := by
  have hline : "@@ -" ++ old.text ++ " +" ++ new.text ++ " @@" ++ text =
      "@@ -" ++ (old.text ++ (" +" ++ (new.text ++ (" @@" ++ text)))) := by
    simp only [String.append_assoc]
  have hnone : ∀ mark : String, ¬ mark.toList <+: "@@ -".toList → ¬ "@@ -".toList <+: mark.toList →
      Text.after? mark ("@@ -" ++ old.text ++ " +" ++ new.text ++ " @@" ++ text) = none := by
    intro mark h h'
    rw [hline]
    exact Text.after?_eq_none_of_apart h h' _
  have hfile := hnone "diff --git " (by decide) (by decide)
  have hdeleted := hnone "deleted file mode" (by decide) (by decide)
  have hadded := hnone "new file mode" (by decide) (by decide)
  rw [Reading.line, fileHeader?, hfile, Text.startsWith, hdeleted, Text.startsWith, hadded,
    hunkHeader?_append]
  cases hname : r.file with
  | none => simp [Line.read, hname]
  | some path => simp [Line.read, hname, PrintedHunk.read]

namespace Line

/-- Whatever a line carries, it is read by what marks it. -/
theorem read_text (r : Reading) (l : Line) :
    r.line (String.ofList (Text.dropReturn l.text.toList)) = l.read r := by
  have hlead : l.lead.toList.getLast? ≠ some '\r' := by
    cases l with
    | file old path =>
      rw [lead, String.toList_append, List.getLast?_append]
      simp
    | added mode => simp [lead]
    | deleted mode => simp [lead]
    | remark about rest => cases about <;> simp [lead, Remark.lead]
    | hunk old new heading =>
      rw [lead, String.toList_append, List.getLast?_append]
      simp
    | body mark rest => cases mark <;> simp [lead, Mark.lead]
  rw [text, String.toList_append, Text.dropReturn_append hlead, String.ofList_append,
    String.ofList_toList]
  cases l with
  | file old path =>
    rw [rest, Text.dropReturn_of_not_mem path.unreturned, String.ofList_toList, Reading.line, lead,
      fileHeader?_append old.text path.apart]
    rfl
  | added mode => exact r.line_mode "new file mode " _ (by decide) (by decide) (.inr rfl)
  | deleted mode => exact r.line_mode "deleted file mode " _ (by decide) (by decide) (.inl rfl)
  | remark about rest =>
    refine Reading.line_of_unmarked r _ ?_
    cases about <;> simp only [lead, Remark.lead] <;> decide
  | hunk old new heading => exact r.line_hunk old new heading _
  | body mark rest =>
    refine Reading.line_of_unmarked r _ ?_
    cases mark <;> simp only [lead, Mark.lead] <;> decide

/-- A line has no newline in it. -/
theorem single (l : Line) : '\n' ∉ l.text.toList := by
  have hrange : ∀ r : PrintedRange, '\n' ∉ r.text.toList := fun r hmem =>
    absurd (PrintedRange.plain_of_mem_text hmem).1 (by decide)
  have hlead : '\n' ∉ l.lead.toList := by
    cases l with
    | file old path => simp [lead, old.single]
    | added mode => simp [lead]
    | deleted mode => simp [lead]
    | remark about rest => cases about <;> simp [lead, Remark.lead]
    | hunk old new heading => simp [lead, hrange]
    | body mark rest => cases mark <;> simp [lead, Mark.lead]
  rw [text, String.toList_append, List.mem_append, not_or]
  exact ⟨hlead, l.rest.single⟩

/-- The lines of a diff are read for what they are. -/
theorem foldl_lines (ls : List Line) (r : Reading) :
    (Text.lines (String.join (ls.map (·.text ++ "\n")))).foldl Reading.line r =
      ls.foldl Line.read r := by
  have hsingle : ∀ text ∈ ls.map Line.text, '\n' ∉ text.toList := by
    intro text htext
    obtain ⟨l, -, rfl⟩ := List.mem_map.mp htext
    exact l.single
  have hlines := Text.lines_join hsingle
  rw [List.map_map] at hlines
  have hcomp : (fun l : Line => l.text ++ "\n") = (fun x => x ++ "\n") ∘ Line.text := rfl
  have hread : (fun (r : Reading) (l : Line) =>
      r.line (((fun text => String.ofList (Text.dropReturn text.toList)) ∘ Line.text) l)) =
        Line.read :=
    funext fun r => funext fun l => read_text r l
  rw [hcomp, hlines, List.map_map, List.foldl_map, hread]

end Line

/-! ## Blocks -/

/-- Remarks are passed over. -/
theorem foldl_read_remarks (remarks : List (Remark × OneLine)) (r : Reading) :
    (remarks.map fun x => Line.remark x.1 x.2).foldl Line.read r = r := by
  rw [List.foldl_map]
  exact List.foldl_fixed remarks

/-- The text of a hunk is passed over. -/
theorem foldl_read_hunk (h : PrintedHunk) {r : Reading} {file : String}
    (hfile : r.file = some file) :
    h.lines.foldl Line.read r =
      { r with hunks := h.read file r.deleted r.added :: r.hunks } := by
  have hbody : ∀ r : Reading, (h.body.map fun x => Line.body x.1 x.2).foldl Line.read r = r := by
    intro r
    rw [List.foldl_map]
    exact List.foldl_fixed h.body
  rw [PrintedHunk.lines, List.foldl_cons, hbody, Line.read, hfile]
  rfl

/-- The hunks of a block are read with the path and the flags that the block has. -/
theorem foldl_read_hunks (hunks : List PrintedHunk) {r : Reading} {file : String}
    (hfile : r.file = some file) :
    (hunks.flatMap PrintedHunk.lines).foldl Line.read r =
      { r with hunks := (hunks.map (·.read file r.deleted r.added)).reverse ++ r.hunks } := by
  induction hunks generalizing r with
  | nil => rfl
  | cons h hunks ih =>
    have hnext := ih (r := { r with hunks := h.read file r.deleted r.added :: r.hunks }) hfile
    rw [List.flatMap_cons, List.foldl_append, foldl_read_hunk h hfile, hnext]
    simp

/-- A block starts afresh, whatever came before it. -/
theorem foldl_read_block (b : FileBlock) (r : Reading) :
    b.lines.foldl Line.read r =
      { file := some b.path.text, deleted := b.kind.isDeleted, added := b.kind.isAdded
        hunks := b.read.reverse ++ r.hunks } := by
  have hkind : ∀ r : Reading, r.deleted = false → r.added = false →
      b.kind.lines.foldl Line.read r =
        { r with deleted := b.kind.isDeleted, added := b.kind.isAdded } := by
    intro r hdeleted hadded
    cases b.kind with
    | edited =>
      obtain ⟨file, deleted, added, hunks⟩ := r
      obtain rfl : deleted = false := hdeleted
      obtain rfl : added = false := hadded
      rfl
    | added mode => simp [FileKind.lines, FileKind.isDeleted, FileKind.isAdded, Line.read, hdeleted]
    | deleted mode => simp [FileKind.lines, FileKind.isDeleted, FileKind.isAdded, Line.read, hadded]
  rw [FileBlock.lines, List.foldl_cons, List.foldl_append, List.foldl_append, List.foldl_append,
    foldl_read_remarks b.before, hkind _ rfl rfl, foldl_read_remarks b.after]
  exact foldl_read_hunks b.hunks rfl

/-- Reading undoes rendering: the hunks of all blocks come in order, each with the path of its
block, its line numbers, and whether the file of its block is new or deleted. -/
theorem parse_render (blocks : List FileBlock) :
    parse (render blocks) = blocks.flatMap FileBlock.read := by
  have hblocks : ∀ r : Reading, ((blocks.flatMap FileBlock.lines).foldl Line.read r).hunks =
      (blocks.flatMap FileBlock.read).reverse ++ r.hunks := by
    induction blocks with
    | nil => exact fun r => rfl
    | cons b blocks ih =>
      intro r
      rw [List.flatMap_cons, List.foldl_append, ih, foldl_read_block, List.flatMap_cons,
        List.reverse_append, List.append_assoc]
  rw [parse, render, Line.foldl_lines, hblocks]
  simp

/-- A renamed file with a hunk whose text looks like headers. -/
def treacherous : FileBlock where
  oldPath := ⟨"x b/y", by decide⟩
  path := { text := "z b", single := by decide, unreturned := by decide, apart := by decide }
  kind := .edited
  before := [(.renameTo, ⟨"z b", by decide⟩)]
  after := []
  hunks :=
    [{ old := ⟨0, 0, false⟩, new := ⟨12, 1, true⟩, heading := ⟨" @@\r", by decide⟩
       body := [(.added, ⟨"diff --git a/q b/q", by decide⟩), (.kept, ⟨"@@ -1 +1 @@", by decide⟩)] }]

example : parse (render [treacherous]) = [⟨"z b", 0, 0, 12, 1, false, false⟩] := by
  decide +kernel

end CallImpact.Diff
