import CallImpact.Facts
import CallImpact.Go.Node

/-!
# Declarations in a syntax tree

Package clause, imports, type references, receivers, parameters and type declarations as a syntax
tree spells them. A reference through an import that the file does not have names no type.
-/

namespace CallImpact

open Go (Node Kind Role)

/-- The name after the `package` keyword. -/
def packageName? (root : Node) : Option String := do
  let clause ← root.named.find? fun n => n.kind == .packageClause
  let name ← clause.named.find? fun n => n.kind == .packageIdentifier
  return name.text

/-! ## Imports -/

/-- The name under which a package is imported when the import gives none: the last segment of its
path, or the one before a trailing major version. -/
def defaultImportName (path : String) : String :=
  match (Text.pieces '/' path).reverse with
  | [] => path
  | [last] => last
  | last :: previous :: _ =>
    match last.toList with
    | 'v' :: digits =>
      if !digits.isEmpty && digits.all Text.isDecimalDigit then previous else last
    | _ => last

/-- Imported packages by local name, later imports first. -/
abbrev Imports := List (String × String)

/-- The import specifications of a file in order. -/
def importSpecs (root : Node) : List Node :=
  (root.named.filter fun n => n.kind == .importDeclaration).flatMap fun decl =>
    decl.named.flatMap fun child =>
      match child.kind with
      | .importSpec => [child]
      | .importSpecList => child.named.filter fun n => n.kind == .importSpec
      | _ => []

/-- The local name and the path of one import; blank and dot imports have none. -/
def importOf? (spec : Node) : Option (String × String) := do
  let path := Text.trimChars (fun c => c = '"' || c = '`') (← spec.child? .path).text
  match spec.child? .name with
  | none => return (defaultImportName path, path)
  | some name => if name.kind == .packageIdentifier then return (name.text, path) else none

/-- The imports of a file. -/
def importsOf (root : Node) : Imports :=
  ((importSpecs root).filterMap importOf?).reverse

/-! ## Types -/

/-- What names in a file refer to. -/
structure Scope where
  packagePath : String
  imports : Imports

/-- The named type that a type expression refers to, through pointers, parentheses and type
arguments. -/
def Scope.typeRef? (scope : Scope) (n : Node) : Option TypeRef :=
  match n.kind with
  | .typeIdentifier | .identifier => some ⟨scope.packagePath, n.text⟩
  | .qualifiedType => do
    let package ← n.child? .package
    let name ← n.child? .name
    let path ← scope.imports.lookup package.text
    return ⟨path, name.text⟩
  | .pointerType | .parenthesizedType =>
    match h : n.named with
    | inner :: _ =>
      have : sizeOf inner < sizeOf n := Node.sizeOf_lt_of_mem_named (h ▸ List.mem_cons_self)
      scope.typeRef? inner
    | [] => none
  | .genericType =>
    match h : n.child? .type with
    | some inner =>
      have : sizeOf inner < sizeOf n := Node.sizeOf_lt_of_child? h
      scope.typeRef? inner
    | none => none
  | _ => none
termination_by sizeOf n

/-- The spelling of a receiver's type and whether it is a pointer, type parameters dropped. -/
def receiverType? (pointer : Bool) (n : Node) : Option (String × Bool) :=
  match n.kind with
  | .pointerType =>
    match h : n.named with
    | inner :: _ =>
      have : sizeOf inner < sizeOf n := Node.sizeOf_lt_of_mem_named (h ▸ List.mem_cons_self)
      receiverType? true inner
    | [] => none
  | .parenthesizedType =>
    match h : n.named with
    | inner :: _ =>
      have : sizeOf inner < sizeOf n := Node.sizeOf_lt_of_mem_named (h ▸ List.mem_cons_self)
      receiverType? pointer inner
    | [] => none
  | .genericType =>
    match h : n.child? .type with
    | some inner =>
      have : sizeOf inner < sizeOf n := Node.sizeOf_lt_of_child? h
      receiverType? pointer inner
    | none => none
  | _ => some (Text.trimStartChars (· = '*') n.text, pointer)
termination_by sizeOf n

/-- The receiver of a method declaration. -/
def receiver? (decl : Node) : Option Receiver := do
  let list ← decl.child? .receiver
  let param ← list.named.find? fun n => n.kind == .parameterDeclaration
  let (type, pointer) ← receiverType? false (← param.child? .type)
  return { var := (param.child? .name).map (·.text), type, pointer }

/-- The parameters of a parameter list. -/
def Scope.params (scope : Scope) (list : Node) : List Param :=
  (list.named.filter fun n =>
      n.kind == .parameterDeclaration ||
        n.kind == .variadicParameterDeclaration).flatMap fun decl =>
    let type := (decl.child? .type).bind scope.typeRef?
    match decl.childrenIn .name with
    | [] => [{ name := none, type }]
    | names => names.map fun n => { name := if n.text = "_" then none else some n.text, type }

/-- The type of the first result of a declaration. -/
def Scope.result? (scope : Scope) (decl : Node) : Option TypeRef := do
  let result ← decl.child? .result
  if result.kind == .parameterList then (← (scope.params result).head?).type
  else scope.typeRef? result

/-! ## Type declarations -/

/-- The fields and the embedded types of a struct. -/
def Scope.structShape (scope : Scope) (type : Node) : TypeShape :=
  let decls :=
    ((type.named.filter fun n => n.kind == .fieldDeclarationList).flatMap Node.named).filter
      fun n => n.kind == .fieldDeclaration
  let typed := decls.filterMap fun decl =>
    ((decl.child? .type).bind scope.typeRef?).map fun t => (decl.childrenIn .name, t)
  .struct
    (typed.flatMap fun (names, t) => names.map fun n => (n.text, t))
    ((typed.filter fun (names, _) => names.isEmpty).map (·.2))

/-- The methods and the embedded types of an interface. -/
def Scope.interfaceShape (scope : Scope) (type : Node) : TypeShape :=
  .interface
    ((type.named.filter fun n => n.kind == .methodElem).filterMap fun n =>
      (n.child? .name).map (·.text))
    ((type.named.filter fun n => n.kind == .typeElem).flatMap fun n =>
      n.named.filterMap scope.typeRef?)

/-- The type that a type specification declares. -/
def Scope.typeDecl? (scope : Scope) (spec : Node) : Option TypeDecl := do
  let name ← spec.child? .name
  let type ← spec.child? .type
  let shape := match type.kind with
    | .structType => scope.structShape type
    | .interfaceType => scope.interfaceShape type
    | _ => .other
  return { name := name.text, shape }

end CallImpact
