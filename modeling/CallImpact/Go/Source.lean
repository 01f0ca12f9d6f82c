import CallImpact.Go.Parser.Statements

/-!
# Source files

`parseSource` turns every text into a syntax tree. Source outside the grammar becomes nodes of kind
`error`, and a brace that the end of the text leaves open a node of kind `missing`: a function whose
head is sound is kept when its body is not, and otherwise reading goes on at the next word that
starts a declaration.
-/

namespace CallImpact.Go

namespace Parser

/-! ## Declarations of a file -/

/-- Reads the package clause. -/
def packageClause : Parser Node :=
  spanning .packageClause do
    expect "package"
    return [← name .packageIdentifier]

/-- Reads the local name of an import, if one is given. -/
def importName? : Parser (List Node) := do
  let c ← get
  match c.rest.head? with
  | some t =>
    if t.text == "." then
      discard next
      return [(Node.leaf .dot t.text t.extent).withRole .name]
    else if t.text == "_" then
      discard next
      return [(Node.leaf .blankIdentifier t.text t.extent).withRole .name]
    else if isName t then return [(← name .packageIdentifier).withRole .name]
    else return []
  | none => return []

/-- Reads one import. -/
def importSpec : Parser Node :=
  spanning .importSpec do
    let local? ← importName?
    let t ← next
    if t.kind == .text then
      return local? ++ [(Node.leaf .textLiteral t.text t.extent).withRole .path]
    else stuck

/-- Takes tokens up to the brace that closes the one ahead; says whether there is one. -/
def skipBraces : (open' : Nat) → (n : Nat) → Parser Bool
  | _, 0 => return false
  | open', n + 1 => do
    match ← ahead with
    | "" => return false
    | "\x7b" => do
      discard next
      skipBraces (open' + 1) n
    | "\x7d" => do
      discard next
      if open' ≤ 1 then return true else skipBraces (open' - 1) n
    | _ => do
      discard next
      skipBraces open' n

/-- Takes a block that is outside the grammar from the given place on. -/
def brokenBlock (trouble : Trouble) : Parser Node :=
  spanning .block do
    let closed ← skipBraces 0 ((← get).rest.length + 1)
    if closed then return [.leaf .error "" trouble.extent]
    else
      let last := (← get).last
      return [.leaf .missing ""
        { last with start := last.stop, startLine := last.endLine }]

/-- Reads the name, the parameters and the result of a function or method. -/
def functionHead (r : Nested) : Parser (Kind × List Node) := do
  expect "func"
  if ← isAhead "(" then
    let receiver ← parameterList r
    let n ← name .fieldIdentifier
    return (.methodDeclaration,
      receiver.withRole .receiver :: n.withRole .name :: (← signature r))
  else
    let n ← name .identifier
    let params ← do
      if ← isAhead "[" then pure [(← typeParameterList r).withRole .typeParameters] else pure []
    return (.functionDeclaration, n.withRole .name :: params ++ (← signature r))

/-- Reads a function or method declaration. -/
def functionDeclaration (r : Nested) : Parser Node := do
  let start ← here
  let (kind, parts) ← functionHead r
  if ← isAhead "\x7b" then
    let body ← try r.block catch trouble => brokenBlock trouble
    closing kind start (parts ++ [body.withRole .body])
  else closing kind start parts

/-- Reads what may stand at the top of a file. -/
def topLevel (r : Nested) : Parser Node := do
  match ← ahead with
  | "package" => packageClause
  | "import" => grouped .importDeclaration "import" (some .importSpecList) importSpec
  | "func" => functionDeclaration r
  | _ => r.statement

/-- Takes tokens up to the next word that starts a declaration. -/
def skipToDeclaration : Nat → Parser Unit
  | 0 => return ()
  | n + 1 => do
    if ["func", "type", "var", "const", "import", "package", ""].contains (← ahead) then return ()
    discard next
    skipToDeclaration n

/-- Takes the token ahead and all up to the next declaration as source outside the grammar. -/
def brokenSource : Parser Node :=
  spanning .error do
    discard next
    skipToDeclaration ((← get).rest.length)
    return []

/-- Reads the next piece of a file, up to its end. -/
def piece? (r : Nested) : Parser (Option Node) := do
  skipTerminators
  if ← atEnd then return none
  try
    let n ← topLevel r
    return some n
  catch _ => return some (← brokenSource)

/-- Reads a file: pieces, and what stands between a piece and its end of line. -/
def sourceFile (r : Nested) : Parser (List Node) := do
  let parts ← many (α := List Node) do
    match ← piece? r with
    | none => return none
    | some n =>
      if (← atEnd) || (← terminatorAhead) || n.kind == .error then return some [n]
      else return some [n, ← brokenSource]
  return parts.flatten

end Parser

/-- The syntax tree of a source text. -/
def parseSource (source : String) : Node :=
  let all := Token.scan source
  let comments := all.filter fun t => t.kind == .comment
  let tokens := Token.withTerminators (all.filter fun t => t.kind != .comment)
  let chars := source.toList.toArray
  let lines := 1 + source.toList.count '\n'
  let start : Extent := ⟨0, 0, 1, 1⟩
  let reader := Parser.sourceFile (Parser.nested (3 * tokens.length + 8))
  let children := match reader { rest := tokens, last := start } with
    | .ok (children, _) => children
    | .error trouble => [.leaf .error "" trouble.extent]
  let root := Node.branch .sourceFile ⟨0, chars.size, 1, lines⟩ children
  (root.withComments comments).withTexts chars

end CallImpact.Go
