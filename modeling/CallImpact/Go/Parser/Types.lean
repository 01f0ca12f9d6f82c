import CallImpact.Go.Parser.Basic

/-!
# Reading types

Types, parameter lists and type parameters. A name in a parameter list is a parameter name exactly
when a type follows it or a later name of its group, so entries are read first and grouped after.
-/

namespace CallImpact.Go.Parser

/-! ## Parameters -/

/-- One entry of a parameter list, before grouping. -/
inductive Entry where
  | plain (type : Node)
  | named (name type : Node)
  | variadic (name : Option Node) (dots : Extent) (type : Node)

/-- A declaration of parameters that share one type. -/
def parameters (names : List Node) (type : Node) : Node :=
  let first := (names.head?.getD type).extent
  .branch .parameterDeclaration (first.through type.extent)
    (names.map (fun n => (n.withKind .identifier).withRole .name) ++ [type.withRole .type])

/-- Groups entries: names without a type wait for the next entry that has one; those that wait at
the end were types. -/
def groupEntries (waiting : List Node) : List Entry → List Node
  | [] => waiting.map (parameters [])
  | .plain type :: rest => groupEntries (waiting ++ [type]) rest
  | .named name type :: rest => parameters (waiting ++ [name]) type :: groupEntries [] rest
  | .variadic name dots type :: rest =>
    let first := (name.map (·.extent)).getD dots
    waiting.map (parameters []) ++
      .branch .variadicParameterDeclaration (first.through type.extent)
        ((name.map (·.withRole .name)).toList ++ [type.withRole .type]) ::
      groupEntries [] rest

/-- Reads the dots and the type of a variadic parameter. -/
def variadic (r : Nested) (name : Option Node) : Parser Entry := do
  let dots ← here
  expect "..."
  return .variadic name dots (← r.type)

/-- Reads one entry of a parameter list. -/
def entry (r : Nested) : Parser Entry := do
  if ← isAhead "..." then variadic r none
  else if ← nameAhead then
    match ← aheadAt 1 with
    | "," | ")" | "." => return .plain (← r.type)
    | "..." => variadic r (some (← name .identifier))
    | "[" =>
      match ← attempt (followedBy [",", ")"] r.type) with
      | some type => return .plain type
      | none =>
        let n ← name .identifier
        return .named n (← r.type)
    | _ =>
      let n ← name .identifier
      return .named n (← r.type)
  else return .plain (← r.type)

/-- Reads a parameter list with its parentheses. -/
def parameterList (r : Nested) : Parser Node :=
  spanning .parameterList do
    expect "("
    return groupEntries [] (← listUntil ")" (entry r))

/-- Whether a type other than a parenthesised one is ahead. -/
def typeAhead : Parser Bool := do
  return (← nameAhead) ||
    ["struct", "interface", "map", "chan", "func", "*", "[", "<-", "~"].contains (← ahead)

/-- Reads the result of a signature, if there is one. -/
def result? (r : Nested) : Parser (List Node) := do
  if ← isAhead "(" then return [(← parameterList r).withRole .result]
  else if ← typeAhead then return [(← r.type).withRole .result]
  else return []

/-- Reads the parameters and the result of a signature. -/
def signature (r : Nested) : Parser (List Node) := do
  let params ← parameterList r
  return params.withRole .parameters :: (← result? r)

/-- Reads a union of types. -/
def typeElem (r : Nested) : Parser Node :=
  spanning .typeElem do
    let first ← r.type
    let more ← many do
      if ← accept "|" then return some (← r.type) else return none
    return first :: more

/-- Reads one declaration of type parameters: names, then their constraint. -/
def typeParameters (r : Nested) : Parser Node :=
  spanning .typeParameterDeclaration do
    let names ← commaSeparated (name .identifier)
    return names.map (·.withRole .name) ++ [(← typeElem r).withRole .type]

/-- Reads a list of type parameters with its brackets. -/
def typeParameterList (r : Nested) : Parser Node :=
  spanning .typeParameterList do
    expect "["
    listUntil "]" (typeParameters r)

/-! ## Types -/

/-- Reads type arguments with their brackets. -/
def typeArguments (r : Nested) : Parser Node :=
  spanning .typeArguments do
    expect "["
    listUntil "]" (typeElem r)

/-- Reads a type name, qualified or not, and its type arguments. -/
def typeName (r : Nested) : Parser Node := do
  let start ← here
  let base ← do
    if (← aheadAt 1) == "." then
      let package ← name .packageIdentifier
      expect "."
      let member ← name .typeIdentifier
      closing .qualifiedType start [package.withRole .package, member.withRole .name]
    else name .typeIdentifier
  if (← isAhead "[") && (← aheadAt 1) != "]" then
    let arguments ← typeArguments r
    closing .genericType start [base.withRole .type, arguments.withRole .typeArguments]
  else return base

/-- Reads an array or slice type, whose opening bracket is ahead. -/
def bracketType (r : Nested) : Parser Node := do
  let start ← here
  expect "["
  if ← accept "]" then
    let element ← r.type
    closing .sliceType start [element]
  else if ← accept "..." then
    expect "]"
    let element ← r.type
    closing .implicitLengthArrayType start [element]
  else
    let length ← r.expression true
    expect "]"
    let element ← r.type
    closing .arrayType start [length, element]

/-- Reads the embedded type of a struct field. -/
def embeddedField (r : Nested) : Parser (List Node) := do
  discard <| accept "*"
  return [(← typeName r).withRole .type]

/-- Reads the names and the type of struct fields. -/
def namedFields (r : Nested) : Parser (List Node) := do
  let names ← commaSeparated (name .fieldIdentifier)
  return names.map (·.withRole .name) ++ [(← r.type).withRole .type]

/-- Whether the token ahead can end a field without names: a tag, a terminator or the brace. -/
def fieldEndAhead : Parser Bool := do
  return (← get).rest.head?.any fun t =>
    t.kind == .text || t.text == "\n" || t.text == ";" || t.text == "\x7d"

/-- Reads one field declaration of a struct. -/
def fieldDeclaration (r : Nested) : Parser Node :=
  spanning .fieldDeclaration do
    let embedded ← attempt do
      let children ← embeddedField r
      if ← fieldEndAhead then return children else stuck
    let children ← match embedded with
      | some children => pure children
      | none => namedFields r
    match (← get).rest.head? with
    | some t =>
      if t.kind == .text then
        discard next
        return children ++ [(Node.leaf .textLiteral t.text t.extent).withRole .tag]
      else return children
    | none => return children

/-- Reads a struct type. -/
def structType (r : Nested) : Parser Node :=
  spanning .structType do
    expect "struct"
    let fields ← spanning .fieldDeclarationList do
      expect "\x7b"
      linesUntil "\x7d" (fieldDeclaration r)
    return [fields]

/-- Reads a method or an embedded type of an interface. -/
def interfaceElem (r : Nested) : Parser Node := do
  if (← nameAhead) && (← aheadAt 1) == "(" then
    spanning .methodElem do
      let n ← name .fieldIdentifier
      return n.withRole .name :: (← signature r)
  else typeElem r

/-- Reads an interface type. -/
def interfaceType (r : Nested) : Parser Node :=
  spanning .interfaceType do
    expect "interface"
    expect "\x7b"
    linesUntil "\x7d" (interfaceElem r)

/-- Reads a type. -/
def typeSyntax (r : Nested) : Parser Node := do
  match ← ahead with
  | "(" => spanning .parenthesizedType do
    expect "("
    let inner ← r.type
    expect ")"
    return [inner]
  | "*" => spanning .pointerType do
    expect "*"
    return [← r.type]
  | "~" => spanning .negatedType do
    expect "~"
    return [← r.type]
  | "[" => bracketType r
  | "struct" => structType r
  | "interface" => interfaceType r
  | "map" => spanning .mapType do
    expect "map"
    expect "["
    let key ← r.type
    expect "]"
    return [key, ← r.type]
  | "chan" => spanning .channelType do
    expect "chan"
    discard <| accept "<-"
    return [← r.type]
  | "<-" => spanning .channelType do
    expect "<-"
    expect "chan"
    return [← r.type]
  | "func" => spanning .functionType do
    expect "func"
    signature r
  | _ => typeName r

end CallImpact.Go.Parser
