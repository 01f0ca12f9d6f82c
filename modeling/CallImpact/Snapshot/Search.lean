import CallImpact.Snapshot
import CallImpact.Text.Case
import CallImpact.Text.Cut

/-!
# Searching a snapshot

Functions by place, by name, or by a part of a name. Patterns have two wildcards, `%` for any text
and `_` for any character, and ASCII letters match in either case.
-/

namespace CallImpact.Snapshot

/-! ## Patterns -/

/-- Whether two characters are the same, the case of ASCII letters aside. -/
def sameLetter (a b : Char) : Bool :=
  a.toLower == b.toLower

/-- Whether some tail of the text satisfies `p`. -/
def anyTail (p : List Char → Bool) : List Char → Bool
  | [] => p []
  | c :: cs => p (c :: cs) || anyTail p cs

/-- Whether a text matches a pattern. -/
def likeList : (pattern text : List Char) → Bool
  | [], text => text.isEmpty
  | '%' :: pattern, text => anyTail (likeList pattern) text
  | '_' :: pattern, text =>
    match text with
    | [] => false
    | _ :: text => likeList pattern text
  | p :: pattern, text =>
    match text with
    | [] => false
    | c :: text => sameLetter p c && likeList pattern text

/-- Whether a text matches a pattern. -/
def like (pattern text : String) : Bool :=
  likeList pattern.toList text.toList

/-- Whether a stored path is the given one or ends in a slash and it, as a pattern. -/
def endsLike (path stored : String) : Bool :=
  stored == path || like ("%/" ++ path) stored

/-! ## Places -/

/-- Whether a function covers a line. -/
def covers (line : Nat) (n : GraphNode) : Bool :=
  n.lineStart ≤ line && line ≤ n.lineEnd

/-- The functions that cover a line of a file, those that start last first. -/
def covering (s : Snapshot) (file : String) (line : Nat) : List GraphNode :=
  (s.nodes.filter fun n => endsLike file n.file && covers line n).mergeSort fun a b =>
    decide (b.lineStart ≤ a.lineStart)

/-- The innermost function that covers a line of a file. -/
def functionAt? (s : Snapshot) (file : String) (line : Nat) : Option GraphNode :=
  (s.covering file line).head?

/-- The functions of a file, by file and line. -/
def inFile (s : Snapshot) (file : String) : List GraphNode :=
  (s.nodes.filter fun n => endsLike file n.file).mergeSort fun a b =>
    decide (a.file < b.file) || (a.file == b.file && decide (a.lineStart ≤ b.lineStart))

/-! ## Names -/

/-- The package and the local name in `pkg.Func`; the package ends at the first point after the last
slash. -/
def qualified? (query : String) : Option (String × String) := do
  let (base, last) := match Text.cutLast? '/' query with
    | some (base, last) => (base ++ "/", last)
    | none => ("", query)
  let (package, function) ← Text.cut? "." last
  return (base ++ package, function)

/-- The functions of a package with a local name, by package. -/
def inPackage (s : Snapshot) (package function : String) : List GraphNode :=
  (s.nodes.filter fun n => endsLike package n.package && n.localName == function).mergeSort
    fun a b => decide (a.package ≤ b.package)

/-- The functions whose local name contains a pattern, exported ones first, then by name. -/
def similar (s : Snapshot) (query : String) : List GraphNode :=
  (s.nodes.filter fun n => like ("%" ++ query ++ "%") n.localName).mergeSort fun a b =>
    if a.exported != b.exported then a.exported else decide (a.localName ≤ b.localName)

/-! ## Queries -/

/-- The file and the line in `file:line`. -/
def place? (query : String) : Option (String × Nat) := do
  let (file, line) ← Text.cutLast? ':' query
  return (file, ← Text.readNat? Text.max32 (Text.trim line))

/-- What each way to read a query finds, the most specific way first. -/
def answers (s : Snapshot) (query : String) : List (List GraphNode) :=
  [ match place? query with
    | some (file, line) => s.covering file line
    | none => [],
    if Text.endsWith query ".go" then s.inFile query else [],
    s.nodes.filter (isNamed query),
    match qualified? query with
    | some (package, function) => s.inPackage package function
    | none => [],
    s.similar query ]

/-- How many functions a search gives unless another number is asked for. -/
def standardLimit : Nat := 20

/-- The functions that a query finds: the answers of the first way to read it that has any, at most
the given number, or the standard one for zero. -/
def search (s : Snapshot) (query : String) (limit : Nat) : List GraphNode :=
  let query := Text.trim query
  if query = "" then []
  else
    let limit := if limit = 0 then standardLimit else limit
    (((s.answers query).find? fun found => !found.isEmpty).getD []).take limit

end CallImpact.Snapshot
