import CallImpact.Text.Number

/-!
# JSON values

The value type, access to the members of objects, and the printer.
-/

namespace CallImpact

/-- A JSON value. Objects keep their members in order; a number that is not written as a whole
number keeps its spelling. -/
inductive Json where
  | null
  | bool (value : Bool)
  | int (value : Int)
  | fraction (spelling : String)
  | str (value : String)
  | arr (items : List Json)
  | obj (members : List (String × Json))
  deriving Inhabited

namespace Json

/-- A natural number. -/
def nat (n : Nat) : Json :=
  .int n

/-- The value under `key` of an object, `null` when there is none. -/
def field (key : String) : Json → Json
  | .obj members => (members.lookup key).getD .null
  | _ => .null

/-- The text of a string value. -/
def str? : Json → Option String
  | .str s => some s
  | _ => none

/-- The value of a whole number. -/
def int? : Json → Option Int
  | .int n => some n
  | _ => none

/-- The value of a whole number that is not negative. -/
def nat? : Json → Option Nat
  | .int n => if 0 ≤ n then some n.toNat else none
  | _ => none

/-- The value of a truth value. -/
def bool? : Json → Option Bool
  | .bool b => some b
  | _ => none

/-- The items of an array. -/
def arr? : Json → Option (List Json)
  | .arr items => some items
  | _ => none

/-- The members of an object. -/
def obj? : Json → Option (List (String × Json))
  | .obj members => some members
  | _ => none

/-- Whether a value is `null`. -/
def isNull : Json → Bool
  | .null => true
  | _ => false

/-- An optional value, `null` when absent. -/
def ofOption {α : Type} (f : α → Json) : Option α → Json
  | some a => f a
  | none => .null

/-- A list as an array. -/
def ofList {α : Type} (f : α → Json) (xs : List α) : Json :=
  .arr (xs.map f)

/-- An optional string. -/
def ofStr? (s : Option String) : Json :=
  ofOption .str s

/-! ## Printing -/

/-- Appends a character of a string, escaped where it has to be. -/
def pushChar (out : String) (c : Char) : String :=
  match c with
  | '"' => out ++ "\\\""
  | '\\' => out ++ "\\\\"
  | '\n' => out ++ "\\n"
  | '\r' => out ++ "\\r"
  | '\t' => out ++ "\\t"
  | '\x08' => out ++ "\\b"
  | '\x0c' => out ++ "\\f"
  | c =>
    if c.toNat < 0x20 then
      out ++ "\\u00" ++ Text.hexByte (UInt8.ofNat c.toNat)
    else out.push c

/-- Appends a quoted string. -/
def pushText (out s : String) : String :=
  (s.toList.foldl pushChar (out.push '"')).push '"'

mutual

/-- Appends the compact spelling of a value. -/
def push (out : String) : Json → String
  | .null => out ++ "null"
  | .bool b => out ++ (if b then "true" else "false")
  | .int n => out ++ toString n
  | .fraction s => out ++ s
  | .str s => pushText out s
  | .arr items => (pushItems (out.push '[') true items).push ']'
  | .obj members => (pushMembers (out ++ "\x7b") true members) ++ "\x7d"

/-- Appends items with commas between them. -/
def pushItems (out : String) (first : Bool) : List Json → String
  | [] => out
  | item :: rest => pushItems (push (if first then out else out.push ',') item) false rest

/-- Appends members with commas between them. -/
def pushMembers (out : String) (first : Bool) : List (String × Json) → String
  | [] => out
  | (key, value) :: rest =>
    let start := if first then out else out.push ','
    pushMembers (push ((pushText start key).push ':') value) false rest

end

/-- The compact spelling of a value. -/
def render (j : Json) : String :=
  push "" j

/-- Starts a new line at a level of indentation. -/
def pushLine (out : String) (level : Nat) : String :=
  out ++ "\n" ++ String.ofList (List.replicate (2 * level) ' ')

mutual

/-- Appends the spelling of a value over several lines. -/
def pushIndented (out : String) (level : Nat) : Json → String
  | .arr (item :: rest) =>
    let start := pushIndented (pushLine (out.push '[') (level + 1)) (level + 1) item
    (pushLine (pushIndentedItems start (level + 1) rest) level).push ']'
  | .obj ((key, value) :: rest) =>
    let start := pushText (pushLine (out ++ "\x7b") (level + 1)) key ++ ": "
    pushLine (pushIndentedMembers (pushIndented start (level + 1) value) (level + 1) rest) level
      ++ "\x7d"
  | j => push out j

/-- Appends further items, each on a line of its own. -/
def pushIndentedItems (out : String) (level : Nat) : List Json → String
  | [] => out
  | item :: rest =>
    pushIndentedItems (pushIndented (pushLine (out.push ',') level) level item) level rest

/-- Appends further members, each on a line of its own. -/
def pushIndentedMembers (out : String) (level : Nat) : List (String × Json) → String
  | [] => out
  | (key, value) :: rest =>
    let start := pushText (pushLine (out.push ',') level) key ++ ": "
    pushIndentedMembers (pushIndented start level value) level rest

end

/-- The spelling of a value over several lines, indented by two blanks a level. -/
def renderIndented (j : Json) : String :=
  pushIndented "" 0 j

end Json

end CallImpact
