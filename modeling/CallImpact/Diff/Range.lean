import CallImpact.Error

/-!
# Ranges of commits

What a user may give as a range: nothing or `working` for changes that are not committed, one
reference, or two of them with two or three dots between. A range is handed on as one argument of a
command, so it must not look like an option.
-/

namespace CallImpact.Diff

/-- The references of a range. -/
def references (range : String) : List String :=
  match (Text.cut? "..." range) <|> (Text.cut? ".." range) with
  | some (older, newer) => [older, newer]
  | none => [range]

/-- Whether a range cannot be handed on. -/
def isMalformed (range : String) : Bool :=
  range.toList.any (fun c => Text.isBlank c || Text.isControl c) ||
    (references range).any (fun r => Text.startsWith r "-" || Text.contains r "..") ||
    (references range).all (· = "")

/-- The range that a text gives, none for changes that are not committed. -/
def normalizeRange (text : String) : Except Error (Option String) :=
  let range := Text.trim text
  if range = "" || range = "working" then .ok none
  else if isMalformed range then
    .error (.inputInvalid ("malformed commit range '" ++ range ++ "'"))
  else .ok (some range)

end CallImpact.Diff
