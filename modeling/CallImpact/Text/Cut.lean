import CallImpact.Text.Blank

/-!
# Cutting text

Trimming and splitting, on lists of characters and, as thin wrappers, on strings. Splitting at a
separator never loses text: `pieces` gives one piece more than there are separators, and `cut?`
returns what stands before and after the first occurrence of a separator.
-/

namespace CallImpact.Text

/-! ## On lists of characters -/

/-- Drops the longest tail whose characters all satisfy `p`. -/
def dropTailWhile (p : Char → Bool) (cs : List Char) : List Char :=
  (cs.reverse.dropWhile p).reverse

/-- Drops characters satisfying `p` from both ends. -/
def trimBoth (p : Char → Bool) (cs : List Char) : List Char :=
  dropTailWhile p (cs.dropWhile p)

/-- What follows `lead` in `cs`, when `cs` starts with it. -/
def afterLead? : (lead cs : List Char) → Option (List Char)
  | [], cs => some cs
  | _ :: _, [] => none
  | a :: lead, c :: cs => if a = c then afterLead? lead cs else none

/-- The text before and after the first occurrence of `sep`. -/
def cutList? (sep : List Char) : List Char → Option (List Char × List Char)
  | [] => (afterLead? sep []).map fun rest => ([], rest)
  | c :: cs =>
    match afterLead? sep (c :: cs) with
    | some rest => some ([], rest)
    | none => (cutList? sep cs).map fun (before, rest) => (c :: before, rest)

/-- The text before and after the last occurrence of `sep`. -/
def cutLastList? (sep cs : List Char) : Option (List Char × List Char) :=
  (cutList? sep.reverse cs.reverse).map fun (after, before) => (before.reverse, after.reverse)

/-- Splits at every `sep`; a text without one is a single piece. -/
def piecesList (sep : Char) : List Char → List (List Char)
  | [] => [[]]
  | c :: cs =>
    if c = sep then [] :: piecesList sep cs
    else match piecesList sep cs with
      | [] => [[c]]
      | p :: ps => (c :: p) :: ps

/-- The non-empty runs of characters between blanks. -/
def wordsList : List Char → List (List Char)
  | [] => []
  | c :: cs =>
    if isBlank c then wordsList cs
    else match cs with
      | [] => [[c]]
      | d :: _ =>
        if isBlank d then [c] :: wordsList cs
        else match wordsList cs with
          | [] => [[c]]
          | w :: ws => (c :: w) :: ws

/-! ## On strings -/

/-- Drops blanks from both ends. -/
def trim (s : String) : String :=
  String.ofList (trimBoth isBlank s.toList)

/-- Drops blanks from the start. -/
def trimStart (s : String) : String :=
  String.ofList (s.toList.dropWhile isBlank)

/-- Drops blanks from the end. -/
def trimEnd (s : String) : String :=
  String.ofList (dropTailWhile isBlank s.toList)

/-- Drops characters satisfying `p` from both ends. -/
def trimChars (p : Char → Bool) (s : String) : String :=
  String.ofList (trimBoth p s.toList)

/-- Drops characters satisfying `p` from the end. -/
def trimEndChars (p : Char → Bool) (s : String) : String :=
  String.ofList (dropTailWhile p s.toList)

/-- Drops characters satisfying `p` from the start. -/
def trimStartChars (p : Char → Bool) (s : String) : String :=
  String.ofList (s.toList.dropWhile p)

/-- What follows `lead` in `s`, when `s` starts with it. -/
def after? (lead s : String) : Option String :=
  (afterLead? lead.toList s.toList).map String.ofList

/-- What precedes `tail` in `s`, when `s` ends with it. -/
def before? (tail s : String) : Option String :=
  (afterLead? tail.toList.reverse s.toList.reverse).map fun cs => String.ofList cs.reverse

/-- Whether `s` starts with `lead`. -/
def startsWith (s lead : String) : Bool :=
  (after? lead s).isSome

/-- Whether `s` ends with `tail`. -/
def endsWith (s tail : String) : Bool :=
  (before? tail s).isSome

/-- The text before and after the first occurrence of `sep`. -/
def cut? (sep s : String) : Option (String × String) :=
  (cutList? sep.toList s.toList).map fun (a, b) => (String.ofList a, String.ofList b)

/-- The text before and after the last occurrence of a separator character. -/
def cutLast? (sep : Char) (s : String) : Option (String × String) :=
  (cutLastList? [sep] s.toList).map fun (a, b) => (String.ofList a, String.ofList b)

/-- The text after the last occurrence of `sep`. -/
def afterLast? (sep s : String) : Option String :=
  (cutLastList? sep.toList s.toList).map fun (_, b) => String.ofList b

/-- Whether `part` occurs in `s`. -/
def contains (s part : String) : Bool :=
  (cutList? part.toList s.toList).isSome

/-- Splits at every `sep`. -/
def pieces (sep : Char) (s : String) : List String :=
  (piecesList sep s.toList).map String.ofList

/-- The piece after the last `sep`, the whole text when there is none. -/
def lastPiece (sep : Char) (s : String) : String :=
  match cutLast? sep s with
  | some (_, last) => last
  | none => s

/-- The non-empty runs of characters between blanks. -/
def words (s : String) : List String :=
  (wordsList s.toList).map String.ofList

/-- Drops one carriage return from the end of a line. -/
def dropReturn (line : List Char) : List Char :=
  match line.reverse with
  | '\r' :: rest => rest.reverse
  | _ => line

/-- The lines of a text: newlines end lines, a carriage return before one belongs to it, and a
final newline starts no further line. -/
def lines (s : String) : List String :=
  let parts := piecesList '\n' s.toList
  let ended := parts.dropLast.map fun line => String.ofList (dropReturn line)
  match parts.getLast? with
  | some [] | none => ended
  | some last => ended ++ [String.ofList last]

/-- Joins the pieces with a separator between them. -/
def join (sep : String) (parts : List String) : String :=
  sep.intercalate parts

end CallImpact.Text
