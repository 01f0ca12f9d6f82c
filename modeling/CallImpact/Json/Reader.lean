import CallImpact.Json

/-!
# Reading JSON

`Json.parse?` reads one JSON document whose values nest at most `depth` deep. It is strict: no
comments, no trailing commas, no control characters in strings, no unpaired surrogates.
-/

namespace CallImpact.Json

/-- A reader of a part of a document. -/
abbrev Reader := StateT (List Char) Option

namespace Reader

/-- Whether a character is one of the four that may stand between tokens. -/
def isSpace (c : Char) : Bool :=
  c = ' ' || c = '\n' || c = '\t' || c = '\r'

/-- Skips what may stand between tokens. -/
def space : Reader Unit :=
  modify (·.dropWhile isSpace)

/-- The character ahead. -/
def ahead : Reader (Option Char) := do
  return (← get).head?

/-- Takes one character. -/
def next : Reader Char := do
  match ← get with
  | c :: cs =>
    set cs
    return c
  | [] => failure

/-- Takes a character that must be the given one. -/
def expect (c : Char) : Reader Unit := do
  unless (← next) == c do failure

/-- Takes a word that must be ahead. -/
def word (text : String) : Reader Unit := do
  set (← (Text.afterLead? text.toList (← get) : Option (List Char)))

/-- Repeats a reader at most `n` times, until it yields nothing. -/
def atMost {α : Type} (p : Reader (Option α)) : Nat → Reader (List α)
  | 0 => failure
  | n + 1 => do
    match ← p with
    | none => return []
    | some a => return a :: (← atMost p n)

/-- Repeats a reader that takes at least one character whenever it yields something. -/
def many {α : Type} (p : Reader (Option α)) : Reader (List α) := do
  atMost p ((← get).length + 1)

/-- The value of a hexadecimal digit. -/
def hexValue? (c : Char) : Option Nat :=
  if '0' ≤ c && c ≤ '9' then some (c.toNat - '0'.toNat)
  else if 'a' ≤ c && c ≤ 'f' then some (c.toNat - 'a'.toNat + 10)
  else if 'A' ≤ c && c ≤ 'F' then some (c.toNat - 'A'.toNat + 10)
  else none

/-- Takes four hexadecimal digits. -/
def hex4 : Reader Nat := do
  let mut n := 0
  for _ in [0, 1, 2, 3] do
    n := 16 * n + (← (hexValue? (← next) : Option Nat))
  return n

/-- Takes the rest of a numbered escape; two that pair up give one character. -/
def numbered : Reader Char := do
  let n ← hex4
  if 0xD800 ≤ n && n < 0xDC00 then
    expect '\\'
    expect 'u'
    let m ← hex4
    if 0xDC00 ≤ m && m < 0xE000 then
      return Char.ofNat (0x10000 + (n - 0xD800) * 0x400 + (m - 0xDC00))
    else failure
  else if 0xDC00 ≤ n && n < 0xE000 then failure
  else return Char.ofNat n

/-- Takes one character of a string, nothing at the closing quote. -/
def character : Reader (Option Char) := do
  match ← next with
  | '"' => return none
  | '\\' =>
    match ← next with
    | '"' => return some '"'
    | '\\' => return some '\\'
    | '/' => return some '/'
    | 'b' => return some '\x08'
    | 'f' => return some '\x0c'
    | 'n' => return some '\n'
    | 'r' => return some '\r'
    | 't' => return some '\t'
    | 'u' => return some (← numbered)
    | _ => failure
  | c => if c.toNat < 0x20 then failure else return some c

/-- Takes a string with its quotes. -/
def text : Reader String := do
  expect '"'
  return String.ofList (← many character)

/-- Takes decimal digits. -/
def digits : Reader (List Char) := do
  let cs ← get
  let ds := cs.takeWhile Text.isDecimalDigit
  set (cs.drop ds.length)
  return ds

/-- Takes at least one decimal digit. -/
def digits1 : Reader (List Char) := do
  match ← digits with
  | [] => failure
  | ds => return ds

/-- Takes the fraction and the exponent of a number, empty when it is whole. -/
def fractionPart : Reader (List Char) := do
  let point ← do
    if (← ahead) == some '.' then
      discard next
      pure ('.' :: (← digits1))
    else pure []
  let exponent ← do
    if (← ahead).any fun c => c = 'e' || c = 'E' then
      let mark ← next
      let sign ← do
        if (← ahead).any fun c => c = '+' || c = '-' then pure [← next] else pure []
      pure (mark :: sign ++ (← digits1))
    else pure []
  return point ++ exponent

/-- Takes a number. -/
def number : Reader Json := do
  let negative := (← ahead) == some '-'
  if negative then discard next
  let whole ← digits1
  if whole.length > 1 && whole.head? == some '0' then failure
  let rest ← fractionPart
  let n := Text.digitsValue whole
  if rest.isEmpty && !(negative && n == 0) then
    return .int (if negative then -(n : Int) else n)
  else return .fraction (String.ofList ((if negative then ['-'] else []) ++ whole ++ rest))

/-- Takes items with commas between them up to the closing mark. -/
def listUntil {α : Type} (close : Char) (item : Reader α) : Reader (List α) := do
  space
  if (← ahead) == some close then
    discard next
    return []
  let first ← item
  let more ← many do
    space
    let c ← next
    if c = close then return none
    else if c = ',' then
      space
      return some (← item)
    else failure
  return first :: more

/-- Takes a value that nests at most `depth` deep. -/
def value : (depth : Nat) → Reader Json
  | 0 => failure
  | depth + 1 => do
    space
    match ← ahead with
    | some '"' => return .str (← text)
    | some '[' => do
      discard next
      return .arr (← listUntil ']' (value depth))
    | some '\x7b' => do
      discard next
      return .obj (← listUntil '\x7d' do
        let key ← text
        space
        expect ':'
        return (key, ← value depth))
    | some 't' => do word "true"; return .bool true
    | some 'f' => do word "false"; return .bool false
    | some 'n' => do word "null"; return .null
    | _ => number

end Reader

/-- Reads a document whose values nest at most `depth` deep. -/
def parse? (depth : Nat) (s : String) : Option Json := do
  let (j, rest) ← (Reader.value depth).run s.toList
  if (rest.dropWhile Reader.isSpace).isEmpty then some j else none

end CallImpact.Json
