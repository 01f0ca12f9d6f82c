import CallImpact.Go.Parser.Types

/-!
# Reading expressions

Types and expressions share one reader, because `a[b]`, `*a` and `(a)` are both; `Node.asType?` says
which expressions can be types. Brackets and a call after a name decide between the two: `f[t](x)`
with exactly one argument is a conversion to the type `f[t]` whenever `t` can be a type, and a call
of `f` with type arguments otherwise.
-/

namespace CallImpact.Go

namespace Node

/-- Whether a node is a type that cannot be read as an expression. -/
def isTypeOnly (n : Node) : Bool :=
  [Kind.sliceType, .arrayType, .implicitLengthArrayType, .mapType, .structType, .interfaceType,
   .channelType, .functionType, .genericType].contains n.kind

/-- The type that an expression can be read as. -/
def asType? : Node → Option Node
  | .mk .identifier role text extent _ => some (.mk .typeIdentifier role text extent [])
  | .mk .selectorExpression role text extent [.mk .identifier _ p pe _, .mk _ _ m me _] =>
    some (.mk .qualifiedType role text extent
      [.mk .packageIdentifier .package p pe [], .mk .typeIdentifier .name m me []])
  | .mk .unaryExpression role text extent [.mk _ _ op _ _, x] =>
    if op = "*" then (asType? x).map fun t => .mk .pointerType role text extent [t.withRole .none]
    else none
  | .mk .parenthesizedExpression role text extent [x] =>
    (asType? x).map fun t => .mk .parenthesizedType role text extent [t.withRole .none]
  | .mk .indexExpression role text extent [x, i] => do
    let base ← asType? x
    if base.kind = .typeIdentifier || base.kind = .qualifiedType then
      let argument ← asType? i
      some (.mk .genericType role text extent
        [base.withRole .type, .mk .typeArguments .typeArguments "" argument.extent
          [.mk .typeElem .none "" argument.extent [argument.withRole .none]]])
    else none
  | .mk .typeInstantiationExpression role text extent (x :: arguments) => do
    let base ← asType? x
    if base.kind = .typeIdentifier || base.kind = .qualifiedType then
      some (.mk .genericType role text extent
        [base.withRole .type, .mk .typeArguments .typeArguments "" extent arguments])
    else none
  | n => if n.isTypeOnly then some n else none

end Node

namespace Parser

/-! ## Operators -/

/-- The binary operators by strength, weakest first. -/
def binaryOperators : List (List String) :=
  [["||"], ["&&"], ["==", "!=", "<", "<=", ">", ">="], ["+", "-", "|", "^"],
   ["*", "/", "%", "<<", ">>", "&", "&^"]]

/-- Takes the operator ahead as a node when it is one of the given ones. -/
def operator? (operators : List String) : Parser (Option Node) := do
  match (← get).rest with
  | t :: _ =>
    if t.kind == .operator && operators.contains t.text then
      discard next
      return some ((Node.leaf .token t.text t.extent).withRole .operator)
    else return none
  | [] => return none

/-- Joins operands that operators of one strength connect, from the left. -/
def joinBinary (first : Node) (more : List (Node × Node)) : Node :=
  more.foldl (fun left (op, right) =>
    .branch .binaryExpression (left.extent.through right.extent)
      [left.withRole .left, op, right.withRole .right]) first

/-- Reads operands connected by binary operators of the given strengths, weakest first. -/
def binary (operand : Parser Node) : List (List String) → Parser Node
  | [] => operand
  | operators :: stronger => do
    let first ← binary operand stronger
    let more ← many do
      match ← operator? operators with
      | some op => return some (op, ← binary operand stronger)
      | none => return none
    return joinBinary first more

/-! ## Literals -/

/-- Wraps a key or value of a composite literal. -/
def literalElement (n : Node) : Node :=
  .branch .literalElement n.extent [n]

/-- Reads the body of a composite literal; `nested` reads a body inside it. -/
def literalBody (r : Nested) (nested : Parser Node) : Parser Node :=
  spanning .literalValue do
    expect "\x7b"
    let part : Parser Node := do
      if ← isAhead "\x7b" then return literalElement (← nested)
      else return literalElement (← r.expression true)
    listUntil "\x7d" do
      let first ← part
      if ← accept ":" then
        let value ← part
        return .branch .keyedElement (first.extent.through value.extent)
          [first.withRole .key, value.withRole .value]
      else return first

/-- Reads the body of a composite literal, bodies nested at most `depth` deep. -/
def literalValue (r : Nested) : (depth : Nat) → Parser Node
  | 0 => stuck
  | depth + 1 => literalBody r (literalValue r depth)

/-- Reads the body of a composite literal of the given type. -/
def compositeLiteral (r : Nested) (type : Node) : Parser Node := do
  let body ← literalValue r ((← get).rest.length + 1)
  closing .compositeLiteral type.extent [type.withRole .type, body.withRole .body]

/-- Reads a function literal, or a function type when no body follows. -/
def functionLiteral (r : Nested) : Parser Node := do
  let start ← here
  expect "func"
  let parts ← signature r
  if ← isAhead "\x7b" then
    let body ← r.block
    closing .funcLiteral start (parts ++ [body.withRole .body])
  else closing .functionType start parts

/-! ## Operands and what follows them -/

/-- Reads an operand without what follows it. -/
def bareOperand (r : Nested) : Parser Node := do
  match (← get).rest with
  | [] => stuck
  | t :: _ =>
    match t.kind with
    | .text => do discard next; return .leaf .textLiteral t.text t.extent
    | .number => do discard next; return .leaf .numberLiteral t.text t.extent
    | .rune => do discard next; return .leaf .runeLiteral t.text t.extent
    | .word =>
      if t.text == "func" then functionLiteral r
      else if ["struct", "map", "chan", "interface"].contains t.text then typeSyntax r
      else if ["nil", "true", "false", "iota"].contains t.text then do
        discard next
        return .leaf .namedConstant t.text t.extent
      else name .identifier
    | .operator =>
      match t.text with
      | "(" => spanning .parenthesizedExpression do
        expect "("
        let inner ← r.expression true
        expect ")"
        return [inner]
      | "[" => bracketType r
      | "<-" => typeSyntax r
      | _ => stuck
    | .terminator | .comment | .bad => stuck

/-- Reads the arguments of a call with their parentheses. -/
def argumentList (r : Nested) : Parser Node :=
  spanning .argumentList do
    expect "("
    listUntil ")" do
      let value ← r.expression true
      if ← accept "..." then closing .variadicArgument value.extent [value] else return value

/-- Reads arguments of which the first is a type. -/
def typeArgumentList (r : Nested) : Parser Node :=
  spanning .argumentList do
    expect "("
    if ← accept ")" then return []
    let type ← followedBy [",", ")"] r.type
    if ← accept ")" then return [type]
    expect ","
    return type :: (← listUntil ")" (r.expression true))

/-- Whether an argument list holds exactly one argument without dots. -/
def isSingleArgument (arguments : Node) : Bool :=
  match arguments.children with
  | [x] => x.kind != .variadicArgument
  | _ => false

/-- Whether an expression in parentheses has to be a type when one argument follows it: a type that
is no expression, or a name with type arguments, under any pointers and parentheses. -/
def isForcedType : Node → Bool
  | .mk .parenthesizedType _ _ _ [x] => isForcedType x
  | .mk .pointerType _ _ _ [x] => isForcedType x
  | n => n.isTypeOnly

/-- Joins what is called with its arguments: to a conversion or to a call. -/
def applied (callee arguments : Node) : Parser Node := do
  let single := isSingleArgument arguments
  let call (function : Node) (types : List Node) : Parser Node :=
    closing .callExpression callee.extent
      (function.withRole .function :: types ++ [arguments.withRole .arguments])
  let convert (type : Node) : Parser Node :=
    closing .typeConversionExpression callee.extent
      (type.withRole .type :: arguments.children.map (·.withRole .operand))
  match callee.kind, callee.children, callee.asType? with
  | .indexExpression, function :: _, some type =>
    if single then convert type
    else call function (type.childrenIn .typeArguments)
  | .typeInstantiationExpression, _, some type =>
    if single then convert type
    else match callee.child? .operand with
      | some function => call function (type.childrenIn .typeArguments)
      | none => call callee []
  | .indexExpression, [function, index], none =>
    match index.asType? with
    | some type =>
      call function [.mk .typeArguments .typeArguments "" index.extent
        [.branch .typeElem index.extent [type.withRole .none]]]
    | none => call callee []
  | .typeInstantiationExpression, function :: types, none =>
    call function [.mk .typeArguments .typeArguments "" callee.extent types]
  | .parenthesizedExpression, _, some type =>
    if single && isForcedType type then convert type else call callee []
  | _, _, some type => if type.isTypeOnly && single then convert type else call callee []
  | _, _, none => call callee []

/-- Reads brackets after an operand: an index, a slice or type arguments. -/
def bracketed (r : Nested) (operand : Node) : Parser Node := do
  expect "["
  let first ← do
    if ← isAhead ":" then pure [] else pure [← r.expression true]
  if ← isAhead ":" then
    let bounds ← many do
      if ← accept ":" then
        if (← isAhead ":") || (← isAhead "]") then return some []
        else return some [← r.expression true]
      else return none
    expect "]"
    closing .sliceExpression operand.extent (operand.withRole .operand :: first ++ bounds.flatten)
  else
    let more ← many do
      if ← accept "," then
        if ← isAhead "]" then return some [] else return some [← r.expression true]
      else return none
    expect "]"
    match first ++ more.flatten with
    | [index] =>
      closing .indexExpression operand.extent [operand.withRole .operand, index.withRole .index]
    | indices =>
      closing .typeInstantiationExpression operand.extent (operand.withRole .operand :: indices)

/-- Whether a composite literal can start after an operand. -/
def opensLiteral (literals : Bool) (operand : Node) : Bool :=
  match operand.asType? with
  | some type =>
    match type.kind with
    | .typeIdentifier | .qualifiedType => literals
    | .genericType => literals
    | .sliceType | .arrayType | .implicitLengthArrayType | .mapType | .structType => true
    | _ => false
  | none => false

/-- Reads one thing that can follow an operand: a member, a type assertion, brackets, arguments or
the body of a composite literal. -/
def followup? (r : Nested) (literals : Bool) (operand : Node) : Parser (Option Node) := do
  match ← ahead with
  | "." =>
    if (← aheadAt 1) == "(" then
      if (← aheadAt 2) == "type" then return none
      else
        expect "."
        expect "("
        let type ← r.type
        expect ")"
        some <$> closing .typeAssertionExpression operand.extent
          [operand.withRole .operand, type.withRole .type]
    else
      expect "."
      let member ← name .fieldIdentifier
      some <$> closing .selectorExpression operand.extent
        [operand.withRole .operand, member.withRole .field]
  | "[" => some <$> bracketed r operand
  | "(" =>
    if operand.kind == .identifier && (operand.text == "new" || operand.text == "make") then
      match ← attempt (typeArgumentList r) with
      | some arguments =>
        some <$> closing .callExpression operand.extent
          [operand.withRole .function, arguments.withRole .arguments]
      | none => some <$> (do applied operand (← argumentList r))
    else some <$> (do applied operand (← argumentList r))
  | "\x7b" =>
    if opensLiteral literals operand then
      some <$> compositeLiteral r (operand.asType?.getD operand)
    else return none
  | _ => return none

/-- Reads what follows an operand, at most `n` things. -/
def followups (r : Nested) (literals : Bool) : Nat → Node → Parser Node
  | 0, operand => return operand
  | n + 1, operand => do
    match ← followup? r literals operand with
    | some longer => followups r literals n longer
    | none => return operand

/-- Reads an operand with its unary operators and what follows it. -/
def operandSyntax (r : Nested) (literals : Bool) : Parser Node := do
  if (← isAhead "<-") && (← aheadAt 1) == "chan" then
    followups r literals ((← get).rest.length) (← bareOperand r)
  else
    let start ← here
    match ← operator? ["+", "-", "!", "^", "*", "&", "<-"] with
    | some op =>
      let inner ← r.operand literals
      closing .unaryExpression start [op, inner.withRole .operand]
    | none =>
      let first ← bareOperand r
      followups r literals ((← get).rest.length) first

/-- Reads an expression. -/
def expressionSyntax (r : Nested) (literals : Bool) : Parser Node :=
  binary (r.operand literals) binaryOperators

/-- Reads one or more expressions with commas between them. -/
def expressionList (r : Nested) (literals : Bool) : Parser Node :=
  spanning .expressionList (commaSeparated (r.expression literals))

end Parser

end CallImpact.Go
