import CallImpact.Facts.Declarations

/-!
# Extracting facts

`extractFile` reduces the syntax tree of a file to its facts. A body is visited from its root to
its leaves. A call is recorded once: when a value that is looked at comes from it, or else when
the visit reaches it; calls inside its callee and its arguments come before it. Every value that
refers to a call by number therefore refers to a call recorded earlier.
-/

namespace CallImpact

open Go (Node Spot)

/-- What is known of a body while it is visited. -/
structure Walker where
  facts : BodyFacts := {}
  /-- The numbers of the calls recorded so far, by the path of the call. -/
  recorded : List (List Nat × Nat) := []
  /-- Names bound in the body, which hide imports and functions. -/
  locals : List String := []

/-- A step of a visit. -/
abbrev Walk := StateM Walker

namespace Walk

/-- Changes the facts. -/
def record (f : BodyFacts → BodyFacts) : Walk Unit :=
  modify fun w => { w with facts := f w.facts }

/-- Binds a name. -/
def bindName (name : String) : Walk Unit :=
  modify fun w => { w with locals := name :: w.locals }

/-- Whether a name is bound. -/
def isBound (name : String) : Walk Bool := do
  return (← get).locals.contains name

/-- The number of a call that is recorded already. -/
def recorded? (call : Spot) : Walk (Option Nat) := do
  return (← get).recorded.lookup call.path

/-- Appends a call and gives its number. -/
def recordCall (call : Spot) (site : CallSite) : Walk Nat := do
  let w ← get
  let number := w.facts.calls.length
  set { w with
    facts := { w.facts with calls := w.facts.calls ++ [site] }
    recorded := (call.path, number) :: w.recorded }
  return number

/-! ## Values -/

/-- The type that a call of `new` allocates. -/
def newType? (scope : Scope) (call : Spot) : Option TypeRef := do
  let function ← call.child? .function
  guard (function.kind == .identifier && function.text == "new")
  let arguments ← call.child? .arguments
  scope.typeRef? (← arguments.named.head?).node

/-- The path of the package that a node names, when the name is not bound. -/
def importedAs? (scope : Scope) (n : Spot) : Walk (Option String) := do
  if n.kind == .identifier then
    if ← isBound n.text then return none else return scope.imports.lookup n.text
  else return none

mutual

/-- The value of an expression; calls that it comes from are recorded. -/
def value (scope : Scope) (n : Spot) : Walk Expr := do
  match n.kind with
  | .identifier => return .var n.text
  | .selectorExpression =>
    match h : n.child? .operand, n.child? .field with
    | some operand, some field =>
      have : sizeOf operand.node < sizeOf n.node := Spot.sizeOf_lt_of_child? h
      if (← importedAs? scope operand).isSome then return .unknown
      else return .field (← value scope operand) field.text
    | _, _ => return .unknown
  | .compositeLiteral =>
    match (n.child? .type).bind fun t => scope.typeRef? t.node with
    | some type => return .alloc type
    | none => return .unknown
  | .unaryExpression =>
    match h : n.child? .operand with
    | some operand =>
      have : sizeOf operand.node < sizeOf n.node := Spot.sizeOf_lt_of_child? h
      if (n.child? .operator).any fun op => op.text == "&" || op.text == "*" then
        value scope operand
      else return .unknown
    | none => return .unknown
  | .parenthesizedExpression =>
    match h : n.named with
    | inner :: _ =>
      have : sizeOf inner.node < sizeOf n.node :=
        Spot.sizeOf_lt_of_mem_named (h ▸ List.mem_cons_self)
      value scope inner
    | [] => return .unknown
  | .callExpression =>
    match newType? scope n with
    | some type => return .alloc type
    | none => return .result (← call scope n)
  | .typeAssertionExpression =>
    match h : n.child? .operand with
    | some operand =>
      have : sizeOf operand.node < sizeOf n.node := Spot.sizeOf_lt_of_child? h
      let base ← value scope operand
      match (n.child? .type).bind fun t => scope.typeRef? t.node with
      | some type => return .assert base type
      | none => return .unknown
    | none => return .unknown
  | _ => return .unknown
termination_by (sizeOf n.node, 1)

/-- The number of a call, which is recorded now unless it was before. -/
def call (scope : Scope) (n : Spot) : Walk Nat := do
  match ← recorded? n with
  | some number => return number
  | none =>
    let callee ← match h : n.child? .function with
      | some function =>
        have : sizeOf function.node < sizeOf n.node := Spot.sizeOf_lt_of_child? h
        calleeOf scope function
      | none => pure .indirect
    match h : n.child? .arguments with
    | some arguments =>
      let args ← arguments.named.attach.mapM fun ⟨a, ha⟩ =>
        have : sizeOf a.node < sizeOf n.node :=
          Nat.lt_trans (Spot.sizeOf_lt_of_mem_named ha) (Spot.sizeOf_lt_of_child? h)
        value scope a
      recordCall n { line := arguments.node.startLine, callee, args }
    | none => recordCall n { line := n.node.startLine, callee, args := [] }
termination_by (sizeOf n.node, 0)

/-- What a call names when it calls the given expression. -/
def calleeOf (scope : Scope) (n : Spot) : Walk Callee := do
  match n.kind with
  | .identifier => if ← isBound n.text then return .indirect else return .ident n.text
  | .selectorExpression =>
    match h : n.child? .operand, n.child? .field with
    | some operand, some field =>
      have : sizeOf operand.node < sizeOf n.node := Spot.sizeOf_lt_of_child? h
      match ← importedAs? scope operand with
      | some package => return .qualified package field.text
      | none => return .method (← value scope operand) field.text
    | _, _ => return .indirect
  | .parenthesizedExpression =>
    match h : n.named with
    | inner :: _ =>
      have : sizeOf inner.node < sizeOf n.node :=
        Spot.sizeOf_lt_of_mem_named (h ▸ List.mem_cons_self)
      calleeOf scope inner
    | [] => return .indirect
  | _ => return .indirect
termination_by (sizeOf n.node, 0)

end

/-! ## Bindings and literals -/

/-- Gives a value to a target: a variable, which it binds, or a field. -/
def bindTarget (scope : Scope) (target : Spot) (given : Expr) : Walk Unit := do
  match target.kind with
  | .identifier =>
    unless target.text == "_" do
      bindName target.text
      record fun f => { f with assigns := f.assigns ++ [(target.text, given)] }
  | .selectorExpression =>
    match target.child? .operand, target.child? .field with
    | some operand, some field =>
      let base ← value scope operand
      record fun f =>
        { f with fieldStores := f.fieldStores ++ [{ base, field := field.text, value := given }] }
    | _, _ => return ()
  | _ => return ()

/-- The values for the given number of targets: one each when the numbers agree; otherwise the
first target takes the first value, and the others stay unknown. -/
def valuesFor (scope : Scope) (targets : Nat) (right : List Spot) : Walk (List Expr) := do
  if targets = right.length then right.mapM (value scope)
  else match right with
    | first :: _ =>
      let e ← value scope first
      return (e :: List.replicate (targets - 1) .unknown).take targets
    | [] => return List.replicate targets .unknown

/-- Gives values to targets. -/
def bindAll (scope : Scope) (left right : List Spot) : Walk Unit := do
  let given ← valuesFor scope left.length right
  for (target, e) in left.zip given do
    bindTarget scope target e

/-- Binds what a declaration or an assignment has on its left to what it has on its right. -/
def bindSides (scope : Scope) (n : Spot) : Walk Unit :=
  bindAll scope (((n.child? .left).map Spot.named).getD [])
    (((n.child? .right).map Spot.named).getD [])

/-- Variables with a declared type, values or both. -/
def varSpec (scope : Scope) (n : Spot) : Walk Unit := do
  let names := n.childrenIn .name
  match (n.child? .type).bind fun t => scope.typeRef? t.node with
  | some type =>
    record fun f => { f with declared := f.declared ++ names.map fun name => (name.text, type) }
  | none => pure ()
  bindAll scope names (((n.child? .value).map Spot.named).getD [])
  for name in names do
    bindName name.text

/-- What a literal element wraps. -/
def unwrapElement (n : Spot) : Spot :=
  if n.kind == .literalElement then n.named.head?.getD n else n

/-- Sets the field that one element of a literal names. -/
def fieldInit (scope : Scope) (type : TypeRef) (element : Spot) : Walk Unit := do
  let parts := element.named
  match ((element.child? .key) <|> parts.head?).map unwrapElement,
      ((element.child? .value) <|> parts.getLast?).map unwrapElement with
  | some key, some given =>
    if key.kind == .identifier || key.kind == .fieldIdentifier then
      let e ← value scope given
      record fun f =>
        { f with fieldInits := f.fieldInits ++ [{ type, field := key.text, value := e }] }
  | _, _ => return ()

/-- A literal of a named type: an allocation, and the fields that its keys set. -/
def composite (scope : Scope) (n : Spot) : Walk Unit := do
  match (n.child? .type).bind fun t => scope.typeRef? t.node with
  | none => return ()
  | some type =>
    record fun f => { f with allocs := f.allocs ++ [type] }
    match n.child? .body with
    | none => return ()
    | some body =>
      for element in body.named.filter fun e => e.kind == .keyedElement do
        fieldInit scope type element

/-! ## The visit -/

/-- What a node adds before its children are visited. -/
def enter (scope : Scope) (n : Spot) : Walk Unit := do
  match n.kind with
  | .callExpression =>
    match newType? scope n with
    | some type => record fun f => { f with allocs := f.allocs ++ [type] }
    | none => discard <| call scope n
  | .compositeLiteral => composite scope n
  | .shortVarDeclaration => bindSides scope n
  | .assignmentStatement =>
    if (n.child? .operator).any fun op => op.text == "=" then bindSides scope n
  | .varSpec => varSpec scope n
  | .returnStatement =>
    match n.named.head?.bind fun list => list.named.head? with
    | some first =>
      let e ← value scope first
      record fun f => { f with returns := f.returns ++ [e] }
    | none => return ()
  | .funcLiteral =>
    match n.child? .parameters with
    | some list =>
      for param in scope.params list.node do
        match param.name with
        | some name =>
          match param.type with
          | some type => record fun f => { f with declared := f.declared ++ [(name, type)] }
          | none => pure ()
          bindName name
        | none => pure ()
    | none => return ()
  | .rangeClause =>
    match n.child? .left with
    | some left =>
      for target in left.named.filter fun t => t.kind == .identifier do
        bindName target.text
    | none => return ()
  | _ => return ()

mutual

/-- Visits a node at a path and all nodes below it. -/
def visit (scope : Scope) (path : List Nat) : Node → Walk Unit
  | .mk kind role text extent children => do
    enter scope ⟨path, .mk kind role text extent children⟩
    visitAll scope path 0 children

/-- Visits siblings in order; the first one has the given position below the path. -/
def visitAll (scope : Scope) (path : List Nat) (position : Nat) : List Node → Walk Unit
  | [] => return ()
  | n :: ns => do
    visit scope (position :: path) n
    visitAll scope path (position + 1) ns

end

end Walk

/-! ## Functions and files -/

/-- The facts of a function body in which the given names are bound from the start. -/
def Scope.bodyFacts (scope : Scope) (names : List String) (body : Option Node) : BodyFacts :=
  match body with
  | some body => ((Walk.visit scope [] body).run { locals := names }).2.facts
  | none => {}

/-- The function or method that a declaration declares; a method needs a readable receiver. -/
def Scope.function? (scope : Scope) (decl : Node) : Option FuncDecl := do
  let name ← decl.child? .name
  let receiver ← if decl.kind == .methodDeclaration then (receiver? decl).map some else some none
  let params := ((decl.child? .parameters).map scope.params).getD []
  let names := (receiver.bind (·.var)).toList ++ params.filterMap (·.name)
  return {
    name := name.text, receiver, params
    lineStart := decl.startLine, lineEnd := decl.endLine
    result := scope.result? decl
    body := scope.bodyFacts names (decl.child? .body) }

/-- Whether a node declares a function or a method. -/
def isFunctionDecl (n : Node) : Bool :=
  n.kind == .functionDeclaration || n.kind == .methodDeclaration

/-- The facts of a file from its syntax tree. -/
def extractFile (root : Node) (path packagePath : String) : FileFacts :=
  let scope : Scope := { packagePath, imports := importsOf root }
  { path, packagePath
    packageName := (packageName? root).getD ""
    functions := (root.named.filter isFunctionDecl).filterMap scope.function?
    types := (root.named.filter fun n => n.kind == .typeDeclaration).flatMap fun decl =>
      (decl.named.filter fun n => n.kind == .typeSpec).filterMap scope.typeDecl? }

end CallImpact
