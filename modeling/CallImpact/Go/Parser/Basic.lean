import CallImpact.Go.Node

/-!
# Reading syntax trees

The reader's state is the remaining tokens, without comments, and the place of the token read last.
A reader either yields a value or stops with the place at which it found no way on. Repetition is
bounded by the number of remaining tokens, so every reader is a total function; nesting is bounded
through `Nested`, the readers for one level further down.
-/

namespace CallImpact.Go

/-- Where reading stands: the tokens ahead and the place of the last one read. -/
structure Cursor where
  rest : List Token
  last : Extent

/-- The place at which reading found no way on. -/
structure Trouble where
  extent : Extent
  deriving Repr, Inhabited

/-- A reader of a piece of syntax. -/
abbrev Parser := StateT Cursor (Except Trouble)

/-- The readers that a piece of syntax uses for what is nested in it. The flag of an expression
reader says whether a bare type name may open a composite literal. -/
structure Nested where
  expression : Bool → Parser Node
  operand : Bool → Parser Node
  type : Parser Node
  statement : Parser Node
  block : Parser Node

namespace Parser

/-- The spelling of the token ahead, empty at the end. -/
def ahead : Parser String := do
  return ((← get).rest.head?.map (·.text)).getD ""

/-- The spelling of the token at a distance ahead, empty beyond the end. -/
def aheadAt (n : Nat) : Parser String := do
  return ((← get).rest[n]?.map (·.text)).getD ""

/-- Whether no token is left. -/
def atEnd : Parser Bool := do
  return (← get).rest.isEmpty

/-- The place of the token ahead, or of the end. -/
def here : Parser Extent := do
  let c ← get
  return (c.rest.head?.map (·.extent)).getD
    { c.last with start := c.last.stop, startLine := c.last.endLine }

/-- Stops at the token ahead. -/
def stuck {α : Type} : Parser α := do
  throw { extent := ← here }

/-- Takes the token ahead. -/
def next : Parser Token := do
  match (← get).rest with
  | t :: rest =>
    set ({ rest, last := t.extent } : Cursor)
    return t
  | [] => stuck

/-- Whether the token ahead is spelled like this. -/
def isAhead (text : String) : Parser Bool := do
  return (← ahead) == text

/-- Takes the token ahead when it is spelled like this. -/
def accept (text : String) : Parser Bool := do
  if ← isAhead text then
    discard next
    return true
  else return false

/-- Takes a token that must be spelled like this. -/
def expect (text : String) : Parser Unit := do
  unless ← accept text do stuck

/-- Whether a token is a name: a word that is not reserved. -/
def isName (t : Token) : Bool :=
  t.kind == .word && !Token.keywords.contains t.text

/-- Whether a name is ahead. -/
def nameAhead : Parser Bool := do
  return (← get).rest.head?.any isName

/-- Takes a name as a leaf of the given kind. -/
def name (kind : Kind) : Parser Node := do
  if ← nameAhead then
    let t ← next
    return Node.leaf kind t.text t.extent
  else stuck

/-- Whether a terminator is ahead. -/
def terminatorAhead : Parser Bool := do
  return (← isAhead "\n") || (← isAhead ";")

/-- Tries a reader and goes back to where it started when it stops. -/
def attempt {α : Type} (p : Parser α) : Parser (Option α) := fun c =>
  match p c with
  | .ok (a, c') => .ok (some a, c')
  | .error _ => .ok (none, c)

/-- Reads with `p`, and succeeds only if one of the given spellings follows. -/
def followedBy {α : Type} (texts : List String) (p : Parser α) : Parser α := do
  let a ← p
  if texts.contains (← ahead) then return a else stuck

/-- Reads children and joins them under a node that starts at the token ahead. -/
def spanning (kind : Kind) (p : Parser (List Node)) : Parser Node := do
  let start ← here
  let children ← p
  return .branch kind (start.through (← get).last) children

/-- Joins children under a node that started at the given place. -/
def closing (kind : Kind) (start : Extent) (children : List Node) : Parser Node := do
  return .branch kind (start.through (← get).last) children

/-- Repeats a reader at most `n` times, until it yields nothing. -/
def atMost {α : Type} (p : Parser (Option α)) : Nat → Parser (List α)
  | 0 => return []
  | n + 1 => do
    match ← p with
    | none => return []
    | some a => return a :: (← atMost p n)

/-- Repeats a reader that takes at least one token whenever it yields something. -/
def many {α : Type} (p : Parser (Option α)) : Parser (List α) := do
  atMost p ((← get).rest.length + 1)

/-- Takes all terminators ahead. -/
def skipTerminators : Parser Unit := do
  discard <| many (α := Unit) do
    if ← terminatorAhead then
      discard next
      return some ()
    else return none

/-- One or more items with commas between them. -/
def commaSeparated (item : Parser Node) : Parser (List Node) := do
  let first ← item
  let more ← many do
    if ← accept "," then return some (← item) else return none
  return first :: more

/-- Items with commas between them, a comma allowed after the last, up to a closing mark, which is
taken. -/
def listUntil {α : Type} (close : String) (item : Parser α) : Parser (List α) := do
  let items ← many do
    if ← isAhead close then return none
    let a ← item
    unless ← isAhead close do expect ","
    return some a
  expect close
  return items

/-- Items with terminators between them up to a closing mark, which is taken. -/
def linesUntil (close : String) (item : Parser Node) : Parser (List Node) := do
  let items ← many do
    skipTerminators
    if ← isAhead close then return none
    let a ← item
    unless (← isAhead close) || (← terminatorAhead) do stuck
    return some a
  skipTerminators
  expect close
  return items

end Parser

end CallImpact.Go
