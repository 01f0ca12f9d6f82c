import CallImpact.Json.Reader
import CallImpact.Time

/-!
# TOML documents

The reader of the documents in which settings and projects are kept. A document is read into the
same values as JSON. A table may be given by a header, by dotted keys, or in line, and only in one
of these ways; what breaks this or any other rule of the format makes the whole document
unreadable.
-/

namespace CallImpact.Toml

/-! ## Tables -/

/-- How a table came to be. -/
inductive Origin where
  /-- A header of its own. -/
  | header
  /-- A header of a table below it. -/
  | implied
  /-- A dotted key. -/
  | dotted
  deriving Repr, BEq, DecidableEq, Inhabited

/-- What a key stands for while a document is read. -/
inductive Item where
  | value (v : Json)
  | table (origin : Origin) (members : List (String × Item))
  /-- A list of tables, of which the latest can still grow. -/
  | tables (earlier : List Json) (latest : List (String × Item))
  deriving Inhabited

/-- The members of a table in order. -/
abbrev Members := List (String × Item)

mutual

/-- What an item stands for. -/
def Item.toJson : Item → Json
  | .value v => v
  | .table _ members => .obj (membersJson members)
  | .tables earlier latest => .arr (earlier ++ [.obj (membersJson latest)])

/-- What the members of a table stand for. -/
def membersJson : List (String × Item) → List (String × Json)
  | [] => []
  | (key, item) :: rest => (key, item.toJson) :: membersJson rest

end

/-- Puts an item in place of the one that a key stands for. -/
def replaceMember (key : String) (item : Item) (m : Members) : Members :=
  m.map fun (k, i) => if k = key then (k, item) else (k, i)

/-- Changes the table at a path of headers, which are made where they are missing. -/
def atHeader (f : Members → Option Members) : List String → Members → Option Members
  | [], m => f m
  | key :: path, m =>
    match m.lookup key with
    | none => (atHeader f path []).map fun sub => m ++ [(key, .table .implied sub)]
    | some (.table origin sub) =>
      (atHeader f path sub).map fun sub => replaceMember key (.table origin sub) m
    | some (.tables earlier latest) =>
      (atHeader f path latest).map fun latest => replaceMember key (.tables earlier latest) m
    | some (.value _) => none

/-- Changes the table at a path of dotted keys, which are made where they are missing. A table
with a header does not grow in this way, and the last table must itself come from a dotted key. -/
def atDotted (f : Members → Option Members) : List String → Members → Option Members
  | [], m => f m
  | key :: path, m =>
    match m.lookup key with
    | none => (atDotted f path []).map fun sub => m ++ [(key, .table .dotted sub)]
    | some (.table origin sub) =>
      if origin = .dotted || (origin = .implied && !path.isEmpty) then
        (atDotted f path sub).map fun sub => replaceMember key (.table origin sub) m
      else none
    | some (.tables earlier latest) =>
      if path.isEmpty then none
      else (atDotted f path latest).map fun latest => replaceMember key (.tables earlier latest) m
    | some (.value _) => none

/-- Adds a value under a dotted key; the key must be new. -/
def addValue (path : List String) (key : String) (v : Json) : Members → Option Members :=
  atDotted (fun m => if (m.lookup key).isSome then none else some (m ++ [(key, .value v)])) path

/-- Opens the table of a header, which must not have one already. -/
def openTable (path : List String) (key : String) : Members → Option Members :=
  atHeader (fun m =>
    match m.lookup key with
    | none => some (m ++ [(key, .table .header [])])
    | some (.table .implied sub) => some (replaceMember key (.table .header sub) m)
    | some _ => none) path

/-- Opens the next table of a list of tables. -/
def openNext (path : List String) (key : String) : Members → Option Members :=
  atHeader (fun m =>
    match m.lookup key with
    | none => some (m ++ [(key, .tables [] [])])
    | some (.tables earlier latest) =>
      some (replaceMember key (.tables (earlier ++ [.obj (membersJson latest)]) []) m)
    | some _ => none) path

/-! ## Characters -/

/-- A reader of a part of a document. -/
abbrev Reader := StateT (List Char) Option

namespace Reader

/-- Skips blanks within a line. -/
def blanks : Reader Unit :=
  modify (·.dropWhile fun c => c = ' ' || c = '\t')

/-- What comes next, which is not taken. -/
def ahead : Reader (Option Char) := do
  return (← get).head?

/-- Takes a text if it comes next. -/
def taken (text : String) : Reader Bool := do
  match Text.afterLead? text.toList (← get) with
  | some rest => set rest; return true
  | none => return false

/-- Takes a text that has to come next. -/
def expect (text : String) : Reader Unit := do
  guard (← taken text)

/-- Takes the end of a line if it comes next. -/
def newline : Reader Bool := do
  if ← taken "\n" then return true else taken "\r\n"

/-- Whether a character may not stand in a text. -/
def isForbidden (c : Char) : Bool :=
  (c.toNat < 0x20 && c != '\t') || c.toNat = 0x7f

/-- Skips a comment. -/
def comment : Reader Unit := do
  if ← taken "#" then modify (·.dropWhile fun c => !isForbidden c)

/-- Takes what may follow on a line: blanks, a comment, and the end of the line or of the
document. -/
def endOfLine : Reader Unit := do
  blanks
  comment
  if (← get).isEmpty then return ()
  guard (← newline)

/-- Skips blanks, comments and ends of lines, at most the given number of lines. -/
def lines : Nat → Reader Unit
  | 0 => blanks
  | n + 1 => do
    blanks
    comment
    if ← newline then lines n

/-- Skips blanks, comments and ends of lines. -/
def space : Reader Unit := do
  lines (← get).length

/-! ## Texts -/

/-- The character that hexadecimal digits stand for. -/
def unicode? (digits : List Char) : Option Char := do
  let n ← digits.foldlM (fun n c => (Json.Reader.hexValue? c).map (16 * n + ·)) 0
  if n < 0xD800 || (0xDFFF < n && n < 0x110000) then some (Char.ofNat n) else none

/-- Takes an escape after its backslash. -/
def escape : Reader Char := do
  match ← get with
  | c :: rest =>
    set rest
    match c with
    | 'b' => return '\x08'
    | 't' => return '\t'
    | 'n' => return '\n'
    | 'f' => return '\x0c'
    | 'r' => return '\r'
    | '"' => return '"'
    | '\\' => return '\\'
    | 'u' | 'U' =>
      let count := if c = 'u' then 4 else 8
      guard (count ≤ rest.length)
      set (rest.drop count)
      unicode? (rest.take count)
    | _ => failure
  | [] => failure

/-- Takes the rest of a text in quotes on one line. -/
def basicText : Nat → List Char → Reader String
  | 0, _ => failure
  | n + 1, done => do
    match ← get with
    | '"' :: rest => set rest; return String.ofList done.reverse
    | '\\' :: rest =>
      set rest
      basicText n ((← escape) :: done)
    | c :: rest =>
      guard (!isForbidden c)
      set rest
      basicText n (c :: done)
    | [] => failure

/-- Takes the rest of a text in single quotes on one line. -/
def literalText : Reader String := do
  let text := (← get).takeWhile fun c => c != '\'' && !isForbidden c
  modify (·.drop text.length)
  expect "'"
  return String.ofList text

/-- Takes the quotes that close a text over several lines; up to two more before them belong to the
text. -/
def closing (quote : Char) : Reader (Option (List Char)) := do
  let quotes := (← get).takeWhile (· = quote)
  if quotes.length < 3 then return none
  let more := min (quotes.length - 3) 2
  modify (·.drop (more + 3))
  return some (List.replicate more quote)

/-- Takes the rest of a text over several lines. -/
def longText (quote : Char) : Nat → List Char → Reader String
  | 0, _ => failure
  | n + 1, done => do
    match ← closing quote with
    | some quotes => return String.ofList (done.reverse ++ quotes)
    | none =>
      if ← newline then longText quote n ('\n' :: done)
      else match ← get with
        | '\\' :: rest =>
          if quote = '"' then
            set rest
            let after := rest.dropWhile fun c => c = ' ' || c = '\t'
            if after.head? = some '\n' || after.take 2 = ['\r', '\n'] then
              set (after.dropWhile fun c => c = ' ' || c = '\t' || c = '\n' || c = '\r')
              longText quote n done
            else longText quote n ((← escape) :: done)
          else
            set rest
            longText quote n ('\\' :: done)
        | c :: rest =>
          guard (!isForbidden c)
          set rest
          longText quote n (c :: done)
        | [] => failure

/-- Takes a text if one comes next. -/
def text? : Reader (Option String) := do
  let size := (← get).length + 1
  if ← taken "\"\"\"" then discard newline; return some (← longText '"' size [])
  else if ← taken "'''" then discard newline; return some (← longText '\'' size [])
  else if ← taken "\"" then return some (← basicText size [])
  else if ← taken "'" then return some (← literalText)
  else return none

/-! ## Keys -/

/-- Whether a character may stand in a key without quotes. -/
def isBare (c : Char) : Bool :=
  c.isAlphanum || c = '_' || c = '-'

/-- Takes one part of a key. -/
def keyPart : Reader String := do
  let size := (← get).length + 1
  if ← taken "\"" then basicText size []
  else if ← taken "'" then literalText
  else
    let bare := (← get).takeWhile isBare
    guard (!bare.isEmpty)
    modify (·.drop bare.length)
    return String.ofList bare

/-- Takes the further parts of a dotted key, at most the given number. -/
def keyParts : Nat → Reader (List String)
  | 0 => return []
  | n + 1 => do
    blanks
    if ← taken "." then
      blanks
      let part ← keyPart
      return part :: (← keyParts n)
    else return []

/-- Takes a key: the tables that lead to it, and its last part. -/
def key : Reader (List String × String) := do
  blanks
  let first ← keyPart
  let rest ← keyParts (← get).length
  match rest.getLast? with
  | some last => return (first :: rest.dropLast, last)
  | none => return ([], first)

/-! ## Numbers and other words -/

/-- Digits that may be grouped by single underscores between them. -/
def grouped? (isDigit : Char → Bool) (cs : List Char) : Option (List Char) :=
  let groups := Text.piecesList '_' cs
  if groups.all fun g => !g.isEmpty && g.all isDigit then some groups.flatten else none

/-- The greatest whole number. -/
def maxInt : Nat := 9223372036854775807

/-- A whole number within its bounds. -/
def bounded? (negative : Bool) (n : Nat) : Option Json :=
  if negative then (if n ≤ maxInt + 1 then some (.int (-n)) else none)
  else (if n ≤ maxInt then some (.int n) else none)

/-- The value of digits of a base. -/
def inBase? (base : Nat) (cs : List Char) : Option Json := do
  let isDigit (c : Char) : Bool := (Json.Reader.hexValue? c).any (· < base)
  let digits ← grouped? isDigit cs
  bounded? false (digits.foldl (fun n c => base * n + (Json.Reader.hexValue? c).getD 0) 0)

/-- A word without its sign, and whether the sign is a minus. -/
def unsigned : List Char → Bool × List Char
  | '-' :: cs => (true, cs)
  | '+' :: cs => (false, cs)
  | cs => (false, cs)

/-- Digits of a whole number, without needless zeros in front. -/
def decimal? (cs : List Char) : Option (List Char) :=
  (grouped? Text.isDecimalDigit cs).filter fun digits =>
    digits.head? != some '0' || digits.length = 1

/-- A whole number. -/
def integer? (cs : List Char) : Option Json :=
  match cs with
  | '0' :: 'x' :: digits => inBase? 16 digits
  | '0' :: 'o' :: digits => inBase? 8 digits
  | '0' :: 'b' :: digits => inBase? 2 digits
  | _ =>
    let (negative, cs) := unsigned cs
    (decimal? cs).bind fun digits => bounded? negative (Text.digitsValue digits)

/-- Whether a word is a number with a fraction or an exponent, or stands for none. -/
def isFraction (cs : List Char) : Bool :=
  let (_, cs) := unsigned cs
  if cs = "inf".toList || cs = "nan".toList then true
  else
    let (mantissa, exponent) := match Text.cutList? ['e'] (cs.map Char.toLower) with
      | some (m, e) => (m, some e)
      | none => (cs, none)
    let (whole, fraction) := match Text.cutList? ['.'] mantissa with
      | some (w, f) => (w, some f)
      | none => (mantissa, none)
    (fraction.isSome || exponent.isSome) && (decimal? whole).isSome &&
      fraction.all (fun f => (grouped? Text.isDecimalDigit f).isSome) &&
      exponent.all fun e => (grouped? Text.isDecimalDigit (unsigned e).2).isSome

/-- Whether a word is a date of the calendar. -/
def isDate (cs : List Char) : Bool :=
  let parts := (Text.piecesList '-' cs).map fun p =>
    (p.length, Text.readNat? Text.max32 (String.ofList p))
  match parts with
  | [(4, some y), (2, some m), (2, some d)] =>
    1 ≤ m && m ≤ 12 && 1 ≤ d && d ≤ Instant.daysInMonth y m
  | _ => false

/-- Whether a word is a time of day. -/
def isTime (cs : List Char) : Bool :=
  let (whole, fraction) := match Text.cutList? ['.'] cs with
    | some (w, f) => (w, f)
    | none => (cs, ['0'])
  !fraction.isEmpty && fraction.all Text.isDecimalDigit &&
    match (Text.piecesList ':' whole).map fun p =>
      (p.length, (Text.readNat? Text.max32 (String.ofList p))) with
    | [(2, some h), (2, some m), (2, some s)] => h ≤ 23 && m ≤ 59 && s ≤ 60
    | _ => false

/-- A time of day without the offset that may follow it. -/
def withoutOffset (cs : List Char) : List Char :=
  match cs.reverse with
  | 'Z' :: rest | 'z' :: rest => rest.reverse
  | a :: b :: ':' :: c :: d :: sign :: rest =>
    if (sign = '+' || sign = '-') && isTime [d, c, ':', b, a, ':', '0', '0'] then rest.reverse
    else cs
  | _ => cs

/-- Whether a word is a date, a time, or both. -/
def isDateTime (cs : List Char) : Bool :=
  isDate cs || isTime cs ||
    (isDate (cs.take 10) && ((cs.drop 10).head?.any fun c => c = 'T' || c = 't' || c = ' ') &&
      isTime (withoutOffset (cs.drop 11)))

/-- Whether a character may stand in a word. -/
def isWordChar (c : Char) : Bool :=
  c.isAlphanum || c = '+' || c = '-' || c = '_' || c = '.' || c = ':'

/-- Takes a word; a date may be followed by a blank and a time. -/
def word : Reader (List Char) := do
  let first := (← get).takeWhile isWordChar
  modify (·.drop first.length)
  match ← get with
  | ' ' :: c :: rest =>
    if isDate first && Text.isDecimalDigit c then
      let second := (c :: rest).takeWhile isWordChar
      modify (·.drop (second.length + 1))
      return first ++ ' ' :: second
    else return first
  | _ => return first

/-- Takes a truth value, a number, a date or a time. Dates and times keep their spelling. -/
def scalar : Reader Json := do
  let cs ← word
  if cs = "true".toList then return .bool true
  else if cs = "false".toList then return .bool false
  else match integer? cs with
    | some v => return v
    | none =>
      guard (isFraction cs || isDateTime cs)
      return .fraction (String.ofList cs)

/-! ## Values -/

/-- Takes the rest of a list, at most the given number of items. -/
def listItems (value : Reader Json) : Nat → Reader (List Json)
  | 0 => failure
  | n + 1 => do
    space
    if ← taken "]" then return []
    let v ← value
    space
    if ← taken "," then return v :: (← listItems value n)
    expect "]"
    return [v]

/-- Takes the members of a table in line, at most the given number. -/
def inlineMembers (value : Reader Json) : Nat → Members → Reader Members
  | 0, _ => failure
  | n + 1, m => do
    let (path, last) ← key
    blanks
    expect "="
    blanks
    let v ← value
    let m ← (addValue path last v m : Option Members)
    blanks
    if ← taken "," then inlineMembers value n m
    else
      expect "\x7d"
      return m

/-- Takes a value that is nested at most so deep. -/
def value : (depth : Nat) → Reader Json
  | 0 => failure
  | depth + 1 => do
    let size := (← get).length + 1
    match ← text? with
    | some s => return .str s
    | none =>
      if ← taken "[" then return .arr (← listItems (value depth) size)
      else if ← taken "\x7b" then
        blanks
        if ← taken "\x7d" then return .obj []
        return .obj (membersJson (← inlineMembers (value depth) size []))
      else scalar

/-! ## Documents -/

/-- How deep values may be nested. -/
def maxDepth : Nat := 80

/-- Takes a header after its first bracket, and gives the document with its table opened and the
path to the table. -/
def header (m : Members) : Reader (Members × List String) := do
  let list ← taken "["
  let (path, last) ← key
  blanks
  expect (if list then "]]" else "]")
  endOfLine
  let m ← ((if list then openNext path last m else openTable path last m) : Option Members)
  return (m, path ++ [last])

/-- Takes a key and its value, and gives the document with the value added to the table at hand. -/
def keyValue (current : List String) (m : Members) : Reader Members := do
  let (path, last) ← key
  blanks
  expect "="
  blanks
  let v ← value maxDepth
  endOfLine
  (atHeader (addValue path last v) current m : Option Members)

/-- Takes headers and values, at most the given number. -/
def document : Nat → (current : List String) → Members → Reader Members
  | 0, _, _ => failure
  | n + 1, current, m => do
    space
    if (← get).isEmpty then return m
    else if ← taken "[" then
      let (m, current) ← header m
      document n current m
    else document n current (← keyValue current m)

end Reader

/-- Reads a document. -/
def parse? (s : String) : Option Json :=
  let cs := match s.toList with
    | '\ufeff' :: rest => rest
    | cs => cs
  (Reader.document (cs.length + 1) [] [] |>.run cs).map fun (m, _) => .obj (membersJson m)

end CallImpact.Toml
