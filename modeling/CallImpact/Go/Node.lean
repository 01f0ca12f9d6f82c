import CallImpact.Go.Token

/-!
# Syntax trees of Go source

A `Node` is a piece of source with a kind, the role it plays in its parent, its spelling, its place
and its children in source order. Comments are nodes like any other: a comment is a child of the
smallest node that has source both before and after it. Of the punctuation only operators are kept,
as nodes of kind `token`; all other children are the *named* ones.

A child is smaller than its parent (`sizeOf_lt_of_mem_children`), which is what every recursion
over looked-up children rests on.
-/

namespace CallImpact.Go

/-- What a node stands for. -/
inductive Kind where
  | sourceFile | packageClause | packageIdentifier | importDeclaration | importSpec | importSpecList
  | dot | blankIdentifier | functionDeclaration | methodDeclaration | typeDeclaration | typeSpec
  | typeAlias | constDeclaration | constSpec | varDeclaration | varSpec | varSpecList
  | parameterList | parameterDeclaration | variadicParameterDeclaration
  | typeParameterList | typeParameterDeclaration
  | identifier | typeIdentifier | fieldIdentifier | labelName
  | genericType | qualifiedType | pointerType | parenthesizedType | structType | interfaceType
  | arrayType | implicitLengthArrayType | sliceType | mapType | channelType | functionType
  | negatedType | typeArguments | typeElem | methodElem | fieldDeclarationList | fieldDeclaration
  | unaryExpression | binaryExpression | selectorExpression | indexExpression | sliceExpression
  | callExpression | typeAssertionExpression | typeConversionExpression
  | typeInstantiationExpression | parenthesizedExpression | compositeLiteral | literalValue
  | literalElement | keyedElement
  | funcLiteral | argumentList | variadicArgument | textLiteral | numberLiteral | runeLiteral
  | namedConstant | expressionList
  | block | expressionStatement | sendStatement | receiveStatement | incStatement | decStatement
  | assignmentStatement | shortVarDeclaration | labeledStatement | fallthroughStatement
  | breakStatement | continueStatement | gotoStatement | returnStatement | goStatement
  | deferStatement | ifStatement | forStatement | forClause | rangeClause
  | expressionSwitchStatement | expressionCase | defaultCase | typeSwitchStatement | typeCase
  | selectStatement | communicationCase
  | comment | token | error | missing
  deriving Repr, BEq, DecidableEq, Inhabited

/-- The part that a node plays in its parent. -/
inductive Role where
  | none | name | path | alias | receiver | typeParameters | parameters | result | body | type
  | typeArguments | package | operand | field | function | arguments | operator | left | right
  | index | key | value | tag | label | condition | consequence | alternative | clause
  deriving Repr, BEq, DecidableEq, Inhabited

/-- A node of a syntax tree. -/
inductive Node where
  | mk (kind : Kind) (role : Role) (text : String) (extent : Extent) (children : List Node)
  deriving Repr, Inhabited

namespace Node

/-- What the node stands for. -/
def kind : Node → Kind
  | .mk kind _ _ _ _ => kind

/-- The part that the node plays in its parent. -/
def role : Node → Role
  | .mk _ role _ _ _ => role

/-- The source text of the node. -/
def text : Node → String
  | .mk _ _ text _ _ => text

/-- Where the node stands. -/
def extent : Node → Extent
  | .mk _ _ _ extent _ => extent

/-- All children in source order. -/
def children : Node → List Node
  | .mk _ _ _ _ children => children

/-- The line on which the node starts. -/
def startLine (n : Node) : Nat :=
  n.extent.startLine

/-- The line on which the node ends. -/
def endLine (n : Node) : Nat :=
  n.extent.endLine

/-- The same node in another role. -/
def withRole (role : Role) : Node → Node
  | .mk kind _ text extent children => .mk kind role text extent children

/-- The same node as another kind. -/
def withKind (kind : Kind) : Node → Node
  | .mk _ role text extent children => .mk kind role text extent children

/-- A node without children. -/
def leaf (kind : Kind) (text : String) (extent : Extent) : Node :=
  .mk kind .none text extent []

/-- A node over the given stretch of source. -/
def branch (kind : Kind) (extent : Extent) (children : List Node) : Node :=
  .mk kind .none "" extent children

/-- Whether the node counts as a named one. -/
def isNamed (n : Node) : Bool :=
  n.kind != .token

/-- The named children in source order, comments included. -/
def named (n : Node) : List Node :=
  n.children.filter isNamed

/-- The first child in the given role. -/
def child? (n : Node) (role : Role) : Option Node :=
  n.children.find? fun c => c.role == role

/-- All children in the given role. -/
def childrenIn (n : Node) (role : Role) : List Node :=
  n.children.filter fun c => c.role == role

/-! ## Children are smaller -/

/-- A child is smaller than its parent. -/
theorem sizeOf_lt_of_mem_children {c n : Node} (h : c ∈ n.children) : sizeOf c < sizeOf n := by
  cases n with
  | mk kind role text extent children =>
    have := List.sizeOf_lt_of_mem (show c ∈ children from h)
    simp only [mk.sizeOf_spec]
    omega

/-- A named child is a child. -/
theorem mem_children_of_mem_named {c n : Node} (h : c ∈ n.named) : c ∈ n.children :=
  (List.mem_filter.mp h).1

/-- A child looked up by role is a child. -/
theorem mem_children_of_child? {c n : Node} {role : Role} (h : n.child? role = some c) :
    c ∈ n.children :=
  List.mem_of_find?_eq_some h

/-- A child looked up by role is smaller than its parent. -/
theorem sizeOf_lt_of_child? {c n : Node} {role : Role} (h : n.child? role = some c) :
    sizeOf c < sizeOf n :=
  sizeOf_lt_of_mem_children (mem_children_of_child? h)

/-- A named child is smaller than its parent. -/
theorem sizeOf_lt_of_mem_named {c n : Node} (h : c ∈ n.named) : sizeOf c < sizeOf n :=
  sizeOf_lt_of_mem_children (mem_children_of_mem_named h)

/-! ## Comments -/

/-- The node of a comment. -/
def ofComment (t : Token) : Node :=
  leaf .comment t.text t.extent

mutual

/-- Adds comments that lie within the node, each to the smallest node around it. -/
def withComments (comments : List Token) : Node → Node
  | .mk kind role text extent children =>
    .mk kind role text extent (listWithComments comments children)

/-- Adds comments to a list of siblings: inside the sibling that spans it, else between them. -/
def listWithComments (comments : List Token) : List Node → List Node
  | [] => comments.map ofComment
  | n :: ns =>
    let earlier := comments.takeWhile fun t => t.extent.stop ≤ n.extent.start
    let rest := comments.drop earlier.length
    let inside := rest.takeWhile fun t => t.extent.stop ≤ n.extent.stop
    earlier.map ofComment ++ withComments inside n :: listWithComments (rest.drop inside.length) ns

end

mutual

/-- Gives every inner node the source text that it spans. -/
def withTexts (source : Array Char) : Node → Node
  | .mk kind role text extent children =>
    let text := if children.isEmpty then text
      else String.ofList (source.extract extent.start extent.stop).toList
    .mk kind role text extent (listWithTexts source children)

/-- `withTexts` over a list of siblings. -/
def listWithTexts (source : Array Char) : List Node → List Node
  | [] => []
  | n :: ns => withTexts source n :: listWithTexts source ns

end

/-! ## Errors -/

mutual

/-- The line of the first node, parents before children, that stands for source outside the
grammar. -/
def firstErrorLine? : Node → Option Nat
  | .mk kind _ _ extent children =>
    if kind == .error || kind == .missing then some extent.startLine
    else listFirstErrorLine? children

/-- `firstErrorLine?` over a list of siblings. -/
def listFirstErrorLine? : List Node → Option Nat
  | [] => none
  | n :: ns =>
    match firstErrorLine? n with
    | some line => some line
    | none => listFirstErrorLine? ns

end

end Node

/-! ## Spots -/

/-- A node and where it is in its tree: the positions among siblings on the way to it, the last one
first. Two nodes of one tree are never at the same path. -/
structure Spot where
  path : List Nat
  node : Node

namespace Spot

/-- What the node stands for. -/
def kind (s : Spot) : Kind :=
  s.node.kind

/-- The source text of the node. -/
def text (s : Spot) : String :=
  s.node.text

/-- All children with their paths. -/
def children (s : Spot) : List Spot :=
  s.node.children.zipIdx.map fun (c, i) => ⟨i :: s.path, c⟩

/-- The named children with their paths. -/
def named (s : Spot) : List Spot :=
  s.children.filter fun c => c.node.isNamed

/-- The first child in the given role, with its path. -/
def child? (s : Spot) (role : Role) : Option Spot :=
  s.children.find? fun c => c.node.role == role

/-- All children in the given role, with their paths. -/
def childrenIn (s : Spot) (role : Role) : List Spot :=
  s.children.filter fun c => c.node.role == role

/-- The node of a child is a child of the node. -/
theorem mem_children {c s : Spot} (h : c ∈ s.children) : c.node ∈ s.node.children := by
  obtain ⟨⟨n, i⟩, hmem, rfl⟩ := List.mem_map.mp h
  exact List.fst_mem_of_mem_zipIdx hmem

/-- A child is smaller than its parent. -/
theorem sizeOf_lt_of_mem_children {c s : Spot} (h : c ∈ s.children) :
    sizeOf c.node < sizeOf s.node :=
  Node.sizeOf_lt_of_mem_children (mem_children h)

/-- A child looked up by role is smaller than its parent. -/
theorem sizeOf_lt_of_child? {c s : Spot} {role : Role} (h : s.child? role = some c) :
    sizeOf c.node < sizeOf s.node :=
  sizeOf_lt_of_mem_children (List.mem_of_find?_eq_some h)

/-- A named child is smaller than its parent. -/
theorem sizeOf_lt_of_mem_named {c s : Spot} (h : c ∈ s.named) : sizeOf c.node < sizeOf s.node :=
  sizeOf_lt_of_mem_children (List.mem_filter.mp h).1

end Spot

end CallImpact.Go
