import CallImpact.Json
import CallImpact.Text.Cut

/-!
# Hunks

The places where two versions of files differ, read from the text of a unified diff. The text is
read line by line: a header names a file, lines about its mode say whether the whole file is new
or deleted, and each line that starts a hunk gives the lines of both versions.
-/

namespace CallImpact

/-- A run of lines of the old version that was replaced by a run of lines of the new one. -/
structure Hunk where
  file : String
  oldStart : Nat
  oldCount : Nat
  newStart : Nat
  newCount : Nat
  /-- The whole file was deleted. -/
  deleted : Bool
  /-- The whole file is new. -/
  added : Bool
  deriving Repr, BEq, DecidableEq, Inhabited

namespace Hunk

/-- The first and the last line that a hunk affects: of the old version for deletions, else of the
new one. -/
def affectedLines (h : Hunk) : Nat × Nat :=
  let (start, count) := if h.deleted || h.newCount = 0 then (h.oldStart, h.oldCount)
    else (h.newStart, h.newCount)
  (start, min Text.max32 (start + (count - 1)))

/-- A hunk in JSON. -/
def toJson (h : Hunk) : Json :=
  .obj [("file", .str h.file), ("old_start", .nat h.oldStart), ("old_count", .nat h.oldCount),
    ("new_start", .nat h.newStart), ("new_count", .nat h.newCount),
    ("is_deleted", .bool h.deleted), ("is_added", .bool h.added)]

end Hunk

namespace Diff

/-- A start and a count after a sign; a count that is left out is one. -/
def lineRange? (sign token : String) : Option (Nat × Nat) := do
  let range ← Text.after? sign token
  match Text.cut? "," range with
  | some (start, count) =>
    return (← Text.readNat? Text.max32 start, ← Text.readNat? Text.max32 count)
  | none => return (← Text.readNat? Text.max32 range, 1)

/-- The old and the new lines that the first line of a hunk gives. -/
def hunkHeader? (line : String) : Option ((Nat × Nat) × (Nat × Nat)) := do
  let rest ← Text.after? "@@ " line
  let (ranges, _) ← Text.cut? " @@" rest
  match Text.words ranges with
  | old :: new :: _ => return (← lineRange? "-" old, ← lineRange? "+" new)
  | _ => none

/-- The path of the new version that the header of a file gives. -/
def fileHeader? (line : String) : Option String := do
  let rest ← Text.after? "diff --git " line
  Text.afterLast? " b/" rest

/-- What is known while a diff is read: the file at hand, what its mode lines say, and the hunks so
far, latest first. -/
structure Reading where
  file : Option String := none
  deleted : Bool := false
  added : Bool := false
  hunks : List Hunk := []
  deriving Repr, BEq, DecidableEq, Inhabited

/-- Reads one line. -/
def Reading.line (r : Reading) (line : String) : Reading :=
  match fileHeader? line with
  | some path => { r with file := some path, deleted := false, added := false }
  | none =>
    if Text.startsWith line "deleted file mode" then { r with deleted := true }
    else if Text.startsWith line "new file mode" then { r with added := true }
    else match hunkHeader? line, r.file with
      | some ((oldStart, oldCount), (newStart, newCount)), some file =>
        { r with hunks := { file, oldStart, oldCount, newStart, newCount,
                            deleted := r.deleted, added := r.added } :: r.hunks }
      | _, _ => r

/-- The hunks of a unified diff, in order. -/
def parse (text : String) : List Hunk :=
  ((Text.lines text).foldl Reading.line {}).hunks.reverse

end Diff

end CallImpact
