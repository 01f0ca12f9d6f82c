import CallImpact.Go.Parser.Expressions

/-!
# Reading statements

Blocks, declarations inside and outside functions, and all statements. In the head of `if`, `for`
and `switch` a bare type name opens no composite literal, because the brace opens the block.
-/

namespace CallImpact.Go.Parser

/-! ## Declarations -/

/-- Reads one declaration after its keyword, or several in parentheses. -/
def grouped (kind : Kind) (keyword : String) (group : Option Kind) (item : Parser Node) :
    Parser Node :=
  spanning kind do
    expect keyword
    if ← isAhead "(" then
      let list : Parser (List Node) := do
        expect "("
        linesUntil ")" item
      match group with
      | some listKind => return [← spanning listKind list]
      | none => list
    else return [← item]

/-- Reads the values of a declaration, if there are any. -/
def values? (r : Nested) : Parser (List Node) := do
  if ← accept "=" then return [(← expressionList r true).withRole .value] else return []

/-- Reads names, an optional type and optional values. -/
def valueSpec (r : Nested) (kind : Kind) : Parser Node :=
  spanning kind do
    let names ← commaSeparated (name .identifier)
    let type ← do
      if (← typeAhead) || (← isAhead "(") then pure [(← r.type).withRole .type] else pure []
    return names.map (·.withRole .name) ++ type ++ (← values? r)

/-- Whether type parameters are ahead, and not the length of an array type: a name in brackets that
a constraint or a further name follows. -/
def typeParametersAhead : Parser Bool := do
  match (← get).rest with
  | open' :: first :: second :: _ =>
    return open'.text == "[" && isName first &&
      (isName second ||
        [",", "interface", "~", "[", "map", "chan", "func", "struct"].contains second.text)
  | _ => return false

/-- Reads what follows the name in a type definition or an alias, with or without type parameters.
-/
def typeSpecRest (r : Nested) (generic : Bool) : Parser (Kind × List Node) := do
  let params ← do
    if generic then pure [(← typeParameterList r).withRole .typeParameters] else pure []
  let kind ← do
    if ← accept "=" then pure Kind.typeAlias else pure Kind.typeSpec
  return (kind, params ++ [(← r.type).withRole .type])

/-- Reads a type definition or an alias. What brackets after the name do not turn out to hold, type
parameters or the length of an array, they hold the other of. -/
def typeSpec (r : Nested) : Parser Node := do
  let start ← here
  let n ← name .typeIdentifier
  let generic ← typeParametersAhead
  let (kind, parts) ← do
    if ← isAhead "[" then
      match ← attempt (typeSpecRest r generic) with
      | some rest => pure rest
      | none => typeSpecRest r !generic
    else typeSpecRest r false
  closing kind start (n.withRole .name :: parts)

/-- Reads the declaration ahead, if there is one. -/
def declaration? (r : Nested) : Parser (Option Node) := do
  match ← ahead with
  | "var" => some <$> grouped .varDeclaration "var" (some .varSpecList) (valueSpec r .varSpec)
  | "const" => some <$> grouped .constDeclaration "const" none (valueSpec r .constSpec)
  | "type" => some <$> grouped .typeDeclaration "type" none (typeSpec r)
  | _ => return none

/-! ## Simple statements -/

/-- The operators of assignments. -/
def assignmentOperators : List String :=
  ["=", "+=", "-=", "*=", "/=", "%=", "&=", "|=", "^=", "<<=", ">>=", "&^="]

/-- The only expression of a list. -/
def onlyOf (list : Node) : Parser Node :=
  match list.children with
  | [x] => return x
  | _ => stuck

/-- Reads the rest of a simple statement after the expressions it starts with. -/
def simpleFrom (r : Nested) (literals : Bool) (left : Node) : Parser Node := do
  match ← ahead with
  | ":=" =>
    discard next
    let right ← expressionList r literals
    closing .shortVarDeclaration left.extent [left.withRole .left, right.withRole .right]
  | "++" =>
    let x ← onlyOf left
    discard next
    closing .incStatement left.extent [x]
  | "--" =>
    let x ← onlyOf left
    discard next
    closing .decStatement left.extent [x]
  | "<-" =>
    let x ← onlyOf left
    discard next
    let value ← r.expression literals
    closing .sendStatement left.extent [x, value.withRole .value]
  | _ =>
    match ← operator? assignmentOperators with
    | some op =>
      let right ← expressionList r literals
      closing .assignmentStatement left.extent [left.withRole .left, op, right.withRole .right]
    | none => closing .expressionStatement left.extent [← onlyOf left]

/-- Reads a simple statement. -/
def simpleStatement (r : Nested) (literals : Bool) : Parser Node := do
  simpleFrom r literals (← expressionList r literals)

/-! ## Statements with blocks -/

/-- Reads statements up to a closing brace or the next case, neither of which is taken. -/
def statementList (r : Nested) : Parser (List Node) :=
  many do
    skipTerminators
    if ["\x7d", "case", "default", ""].contains (← ahead) then return none
    let s ← r.statement
    unless (← terminatorAhead) || ["\x7d", "case", "default", ""].contains (← ahead) do stuck
    return some s

/-- Reads a block. -/
def blockSyntax (r : Nested) : Parser Node :=
  spanning .block do
    expect "\x7b"
    let statements ← statementList r
    expect "\x7d"
    return statements

/-- Reads an `if` statement; `nested` reads one after `else`. -/
def ifStatement (r : Nested) : Parser Node :=
  spanning .ifStatement do
    expect "if"
    let init ← do
      if ← accept ";" then pure []
      else
        let first ← simpleStatement r false
        if ← accept ";" then pure [first] else pure [first.withRole .condition]
    let condition ← do
      if init.any fun n => n.role == .condition then pure []
      else pure [(← r.expression false).withRole .condition]
    let block ← r.block
    let alternative ← do
      if ← accept "else" then pure [(← r.statement).withRole .alternative] else pure []
    return init ++ condition ++ [block.withRole .consequence] ++ alternative

/-- Reads the head of a `for` statement that counts, after its initial statement. -/
def forClause (r : Nested) (start : Extent) (init : List Node) : Parser Node := do
  expect ";"
  let condition ← do
    if ← terminatorAhead then pure [] else pure [(← r.expression false).withRole .condition]
  expect ";"
  let update ← do
    if ← isAhead "\x7b" then pure [] else pure [← simpleStatement r false]
  closing .forClause start (init ++ condition ++ update)

/-- Reads what is ranged over. -/
def ranged (r : Nested) (start : Extent) (left : List Node) : Parser Node := do
  expect "range"
  let right ← r.expression false
  closing .rangeClause start (left ++ [right.withRole .right])

/-- Reads the head of a `for` statement, empty for an endless loop. -/
def forHead (r : Nested) : Parser (List Node) := do
  let start ← here
  match ← ahead with
  | "\x7b" => return []
  | "range" => return [← ranged r start []]
  | ";" => return [← forClause r start []]
  | _ =>
    let left ← expressionList r false
    if ((← isAhead ":=") || (← isAhead "=")) && (← aheadAt 1) == "range" then
      discard next
      return [← ranged r start [left.withRole .left]]
    else
      let first ← simpleFrom r false left
      if ← isAhead ";" then return [← forClause r start [first]] else return [first]

/-- Reads a `for` statement. -/
def forStatement (r : Nested) : Parser Node :=
  spanning .forStatement do
    expect "for"
    let head ← forHead r
    let block ← r.block
    return head ++ [block.withRole .body]

/-! ## Switches -/

/-- Whether the mark of a type switch is ahead. -/
def typeMarkAhead : Parser Bool := do
  return (← isAhead ".") && (← aheadAt 1) == "(" && (← aheadAt 2) == "type"

/-- Takes the mark of a type switch. -/
def typeMark : Parser Unit := do
  expect "."
  expect "("
  expect "type"
  expect ")"

/-- Reads one part of the head of a switch, and whether it makes it a type switch. -/
def switchPart (r : Nested) : Parser (List Node × Bool) := do
  let left ← expressionList r false
  if ← typeMarkAhead then
    let value ← onlyOf left
    typeMark
    return ([value.withRole .value], true)
  else if ← isAhead ":=" then
    discard next
    let right ← expressionList r false
    if ← typeMarkAhead then
      let value ← onlyOf right
      typeMark
      return ([left.withRole .alias, value.withRole .value], true)
    else
      let s ← closing .shortVarDeclaration left.extent
        [left.withRole .left, right.withRole .right]
      return ([s], false)
  else return ([← simpleFrom r false left], false)

/-- Reads the head of a switch, and whether it is a type switch. -/
def switchHead (r : Nested) : Parser (List Node × Bool) := do
  if ← isAhead "\x7b" then return ([], false)
  let first ← do
    if ← isAhead ";" then pure ([], false) else switchPart r
  if ← accept ";" then
    if ← isAhead "\x7b" then return first
    let (second, typed) ← switchPart r
    return (first.1 ++ second, typed)
  else return first

/-- Reads a case of a switch: its values by `values`, then its statements. -/
def caseSyntax (r : Nested) (kind : Kind) (values : Parser (List Node)) : Parser Node := do
  if ← isAhead "default" then
    spanning .defaultCase do
      expect "default"
      expect ":"
      statementList r
  else
    spanning kind do
      expect "case"
      let vs ← values
      expect ":"
      return vs ++ (← statementList r)

/-- Reads cases in braces. -/
def cases (r : Nested) (kind : Kind) (values : Parser (List Node)) : Parser (List Node) := do
  expect "\x7b"
  let list ← many do
    if ← isAhead "\x7d" then return none else return some (← caseSyntax r kind values)
  expect "\x7d"
  return list

/-- Reads a switch. -/
def switchStatement (r : Nested) : Parser Node := do
  let start ← here
  expect "switch"
  let (head, typed) ← switchHead r
  if typed then
    let types : Parser (List Node) :=
      return (← commaSeparated r.type).map (·.withRole .type)
    let list ← cases r .typeCase types
    closing .typeSwitchStatement start (head ++ list)
  else
    let values : Parser (List Node) := return [(← expressionList r true).withRole .value]
    let list ← cases r .expressionCase values
    closing .expressionSwitchStatement start (head ++ list)

/-- Reads what a case of a `select` statement waits for. -/
def communication (r : Nested) : Parser (List Node) := do
  let left ← expressionList r true
  match ← ahead with
  | ":=" | "=" =>
    discard next
    let right ← r.expression true
    return [← closing .receiveStatement left.extent [left.withRole .left, right.withRole .right]]
  | "<-" => return [← simpleFrom r true left]
  | _ => return [← closing .receiveStatement left.extent [(← onlyOf left).withRole .right]]

/-- Reads a `select` statement. -/
def selectStatement (r : Nested) : Parser Node :=
  spanning .selectStatement do
    expect "select"
    cases r .communicationCase (communication r)

/-! ## All statements -/

/-- Reads a word that a label may follow. -/
def jump (kind : Kind) : Parser Node :=
  spanning kind do
    discard next
    if ← nameAhead then return [(← name .labelName).withRole .label] else return []

/-- Reads a statement with a label; the statement may be missing at the end of a block. -/
def labeled (r : Nested) : Parser Node :=
  spanning .labeledStatement do
    let label ← name .labelName
    expect ":"
    if (← terminatorAhead) || ["\x7d", "case", "default"].contains (← ahead) then
      return [label.withRole .label]
    else return [label.withRole .label, ← r.statement]

/-- Reads a statement. -/
def statementSyntax (r : Nested) : Parser Node := do
  match ← declaration? r with
  | some n => return n
  | none =>
    match ← ahead with
    | "return" => spanning .returnStatement do
      expect "return"
      if (← terminatorAhead) || ["\x7d", "case", "default"].contains (← ahead) then return []
      else return [← expressionList r true]
    | "go" => spanning .goStatement do
      expect "go"
      return [← r.expression true]
    | "defer" => spanning .deferStatement do
      expect "defer"
      return [← r.expression true]
    | "if" => ifStatement r
    | "for" => forStatement r
    | "switch" => switchStatement r
    | "select" => selectStatement r
    | "break" => jump .breakStatement
    | "continue" => jump .continueStatement
    | "goto" => jump .gotoStatement
    | "fallthrough" => jump .fallthroughStatement
    | "\x7b" => r.block
    | _ =>
      if (← nameAhead) && (← aheadAt 1) == ":" then labeled r else simpleStatement r true

/-! ## Nesting -/

/-- The readers for at most `depth` levels of nesting. -/
def nested : (depth : Nat) → Nested
  | 0 => { expression := fun _ => stuck, operand := fun _ => stuck, type := stuck,
           statement := stuck, block := stuck }
  | depth + 1 =>
    let r := nested depth
    { expression := expressionSyntax r, operand := operandSyntax r, type := typeSyntax r,
      statement := statementSyntax r, block := blockSyntax r }

end CallImpact.Go.Parser
