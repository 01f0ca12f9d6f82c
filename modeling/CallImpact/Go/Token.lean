import CallImpact.Text.Number

/-!
# Tokens of Go source

`Token.scan` cuts a source text into tokens and comments and records where each one stands. It
never fails: what is no token of the language becomes a token of kind `bad`. `withTerminators`
then adds the terminators that ends of lines stand for, so that the grammar needs to know nothing
about newlines.
-/

namespace CallImpact.Go

/-- A stretch of source: character offsets, the end exclusive, and one-based line numbers. -/
structure Extent where
  start : Nat
  stop : Nat
  startLine : Nat
  endLine : Nat
  deriving Repr, BEq, DecidableEq, Inhabited

/-- The stretch from the start of `a` to the end of `b`. -/
def Extent.through (a b : Extent) : Extent :=
  { start := a.start, stop := b.stop, startLine := a.startLine, endLine := b.endLine }

/-- The kinds of tokens. -/
inductive TokenKind where
  | word
  | operator
  | text
  | number
  | rune
  | terminator
  | comment
  | bad
  deriving Repr, BEq, DecidableEq, Inhabited

/-- A token, its spelling and its place. -/
structure Token where
  kind : TokenKind
  text : String
  extent : Extent
  deriving Repr, BEq, Inhabited

namespace Token

/-- The reserved words of the language. -/
def keywords : List String :=
  ["break", "case", "chan", "const", "continue", "default", "defer", "else", "fallthrough", "for",
   "func", "go", "goto", "if", "import", "interface", "map", "package", "range", "return", "select",
   "struct", "switch", "type", "var"]

/-- Operators and punctuation, longer spellings before their own beginnings. -/
def operators : List String :=
  ["<<=", ">>=", "&^=", "...", "&&", "||", "<-", "++", "--", "==", "!=", "<=", ">=", ":=", "+=",
   "-=", "*=", "/=", "%=", "&=", "|=", "^=", "<<", ">>", "&^", "+", "-", "*", "/", "%", "&", "|",
   "^", "<", ">", "=", "!", "(", ")", "[", "]", "\x7b", "\x7d", ",", ";", ".", ":", "~"]

/-- Whether a character can start a name. Beyond ASCII every character that is not blank counts as
a letter: outside texts and comments nothing else can stand in a source. -/
def startsWord (c : Char) : Bool :=
  c.isAlpha || c = '_' || (128 ≤ c.toNat && !Text.isBlank c)

/-- Whether a character can continue a name. -/
def continuesWord (c : Char) : Bool :=
  startsWord c || Text.isDecimalDigit c

/-- Whether a sign directly after this character belongs to a number: after the exponent mark, which
is `p` in a hexadecimal number and `e` in any other. -/
def takesSign (hex : Bool) (c : Char) : Bool :=
  if hex then c = 'p' || c = 'P' else c = 'e' || c = 'E'

/-- How many characters of a number follow its last read one. -/
def numberLength (hex : Bool) (last : Char) : List Char → Nat
  | [] => 0
  | c :: cs =>
    if c = '.' || continuesWord c || ((c = '+' || c = '-') && takesSign hex last) then
      1 + numberLength hex c cs
    else 0

/-- How many characters of a quoted text follow its opening quote, and whether it is closed. A
backslash takes the next character with it; a text does not run over the end of its line. -/
def quotedLength (quote : Char) : List Char → Nat × Bool
  | [] => (0, false)
  | '\\' :: c :: cs =>
    if c = '\n' then (1, false)
    else let (n, closed) := quotedLength quote cs; (n + 2, closed)
  | c :: cs =>
    if c = quote then (1, true)
    else if c = '\n' then (0, false)
    else let (n, closed) := quotedLength quote cs; (n + 1, closed)

/-- How many characters of a raw text follow its opening quote, and whether it is closed. -/
def rawLength : List Char → Nat × Bool
  | [] => (0, false)
  | c :: cs =>
    if c = '`' then (1, true) else let (n, closed) := rawLength cs; (n + 1, closed)

/-- How many characters of a block comment follow its opening mark, and whether it is closed. -/
def blockLength : List Char → Nat × Bool
  | [] => (0, false)
  | '*' :: '/' :: _ => (2, true)
  | _ :: cs => let (n, closed) := blockLength cs; (n + 1, closed)

/-- The first operator that the text starts with. -/
def operatorAt? (cs : List Char) : Option String :=
  operators.find? fun op => (Text.afterLead? op.toList cs).isSome

/-- The kind of the token that starts with `c` before `cs`, and how many characters of `cs` belong
to it. -/
def classify (c : Char) (cs : List Char) : TokenKind × Nat :=
  if startsWord c then (.word, (cs.takeWhile continuesWord).length)
  else if Text.isDecimalDigit c || (c = '.' && (cs.head?.any Text.isDecimalDigit)) then
    let hex := c = '0' && (cs.head?.any fun d => d = 'x' || d = 'X')
    (.number, numberLength hex c cs)
  else match c, cs with
    | '/', '/' :: rest => (.comment, 1 + (rest.takeWhile (· ≠ '\n')).length)
    | '/', '*' :: rest =>
      let (n, closed) := blockLength rest
      (if closed then .comment else .bad, 1 + n)
    | '"', _ =>
      let (n, closed) := quotedLength '"' cs
      (if closed then .text else .bad, n)
    | '\'', _ =>
      let (n, closed) := quotedLength '\'' cs
      (if closed then .rune else .bad, n)
    | '`', _ =>
      let (n, closed) := rawLength cs
      (if closed then .text else .bad, n)
    | _, _ =>
      match operatorAt? (c :: cs) with
      | some op => (.operator, op.length - 1)
      | none => (.bad, 0)

/-- The tokens and comments of a text that stands at an offset and on a line. -/
def scanFrom (offset line : Nat) : List Char → List Token
  | [] => []
  | c :: cs =>
    if c = '\n' then scanFrom (offset + 1) (line + 1) cs
    else if Text.isBlank c || c = '\uFEFF' then scanFrom (offset + 1) line cs
    else
      let (kind, n) := classify c cs
      let taken := c :: cs.take n
      let endLine := line + taken.count '\n'
      let stop := offset + 1 + n
      { kind, text := String.ofList taken, extent := ⟨offset, stop, line, endLine⟩ } ::
        scanFrom stop endLine (cs.drop n)
  termination_by cs => cs.length
  decreasing_by all_goals simp only [List.length_cons, List.length_drop]; omega

/-- The tokens and comments of a source text. -/
def scan (source : String) : List Token :=
  scanFrom 0 1 source.toList

/-- Whether a line may end after this token: after a name, a literal, a closing bracket and the
words that can end a statement. -/
def endsLine (t : Token) : Bool :=
  match t.kind with
  | .word =>
    !keywords.contains t.text || ["break", "continue", "fallthrough", "return"].contains t.text
  | .operator => ["++", "--", ")", "]", "\x7d"].contains t.text
  | .text | .number | .rune => true
  | .terminator | .comment | .bad => false

/-- The terminator that the end of a line stands for, directly after a token. -/
def lineEnd (t : Token) : Token :=
  { kind := .terminator, text := "\n",
    extent := ⟨t.extent.stop, t.extent.stop, t.extent.endLine, t.extent.endLine⟩ }

/-- Adds a terminator after each token that may end a line and is followed by a token on a later
line or by nothing. -/
def withTerminators : List Token → List Token
  | [] => []
  | [t] => if t.endsLine then [t, t.lineEnd] else [t]
  | t :: u :: rest =>
    if t.endsLine && t.extent.endLine < u.extent.startLine then
      t :: t.lineEnd :: withTerminators (u :: rest)
    else t :: withTerminators (u :: rest)

end Token

end CallImpact.Go
