import CallImpact.Facts
import CallImpact.Json

/-!
# Facts as documents

The facts of a file in JSON, and back. What a document leaves out is empty.
-/

namespace CallImpact

/-! ## Writing -/

/-- A type in JSON. -/
def TypeRef.toJson (t : TypeRef) : Json :=
  .arr [.str t.package, .str t.name]

/-- An expression in JSON. -/
def Expr.toJson : Expr → Json
  | .var name => .obj [("var", .str name)]
  | .field base name => .obj [("field", .arr [base.toJson, .str name])]
  | .alloc type => .obj [("alloc", type.toJson)]
  | .result site => .obj [("result", .nat site)]
  | .assert value type => .obj [("assert", .arr [value.toJson, type.toJson])]
  | .unknown => .str "unknown"

/-- What a call names, in JSON. -/
def Callee.toJson : Callee → Json
  | .ident name => .obj [("ident", .str name)]
  | .qualified package name => .obj [("qualified", .arr [.str package, .str name])]
  | .method receiver name => .obj [("method", .arr [receiver.toJson, .str name])]
  | .indirect => .str "opaque"

/-- A call in JSON. -/
def CallSite.toJson (c : CallSite) : Json :=
  .obj [("line", .nat c.line), ("callee", c.callee.toJson), ("args", .ofList Expr.toJson c.args)]

/-- The facts of a body in JSON. -/
def BodyFacts.toJson (b : BodyFacts) : Json :=
  .obj [("calls", .ofList CallSite.toJson b.calls),
    ("assigns", .ofList (fun (n, e) => .arr [.str n, e.toJson]) b.assigns),
    ("declared", .ofList (fun (n, t) => .arr [.str n, t.toJson]) b.declared),
    ("field_stores", .ofList (fun (s : FieldStore) =>
      .arr [s.base.toJson, .str s.field, s.value.toJson])
      b.fieldStores),
    ("field_inits", .ofList (fun (s : FieldInit) =>
      .arr [s.type.toJson, .str s.field, s.value.toJson])
      b.fieldInits),
    ("returns", .ofList Expr.toJson b.returns), ("allocs", .ofList TypeRef.toJson b.allocs)]

/-- A receiver in JSON. -/
def Receiver.toJson (r : Receiver) : Json :=
  .obj [("var", .ofStr? r.var), ("type", .str r.type), ("pointer", .bool r.pointer)]

/-- A declared function in JSON. -/
def FuncDecl.toJson (f : FuncDecl) : Json :=
  .obj [("name", .str f.name), ("receiver", .ofOption Receiver.toJson f.receiver),
    ("line_start", .nat f.lineStart), ("line_end", .nat f.lineEnd),
    ("params", .ofList (fun (p : Param) => .arr [.ofStr? p.name, .ofOption TypeRef.toJson p.type])
      f.params),
    ("result", .ofOption TypeRef.toJson f.result), ("body", f.body.toJson)]

/-- A declared type in JSON. -/
def TypeDecl.toJson (t : TypeDecl) : Json :=
  .obj (("name", .str t.name) :: match t.shape with
    | .struct fields embedded => [("kind", .str "struct"),
        ("fields", .ofList (fun (n, t) => .arr [.str n, t.toJson]) fields),
        ("embedded", .ofList TypeRef.toJson embedded)]
    | .interface methods embedded => [("kind", .str "interface"), ("methods", .ofList .str methods),
        ("embedded", .ofList TypeRef.toJson embedded)]
    | .other => [("kind", .str "other")])

/-- The facts of a file in JSON. -/
def FileFacts.toJson (f : FileFacts) : Json :=
  .obj [("path", .str f.path), ("package_name", .str f.packageName),
    ("package_path", .str f.packagePath), ("functions", .ofList FuncDecl.toJson f.functions),
    ("types", .ofList TypeDecl.toJson f.types)]

/-! ## Reading -/

namespace Facts

/-- The text of a value, empty for anything else. -/
def text (j : Json) : String :=
  j.str?.getD ""

/-- The items under a key, each read with `f`. -/
def list {α : Type} (j : Json) (key : String) (f : Json → α) : List α :=
  ((j.field key).arr?.getD []).map f

/-- The number under a key. -/
def number (j : Json) (key : String) : Nat :=
  (j.field key).nat?.getD 0

/-- A pair of values, each read with its own reader. -/
def pair {α β : Type} (f : Json → α) (g : Json → β) : Json → α × β
  | .arr [a, b] => (f a, g b)
  | _ => (f .null, g .null)

/-- A value that may be missing. -/
def optional {α : Type} (f : Json → α) (j : Json) : Option α :=
  if j.isNull then none else some (f j)

end Facts

open Facts

/-- Reads a type. -/
def TypeRef.ofJson (j : Json) : TypeRef :=
  let (package, name) := pair text text j
  ⟨package, name⟩

/-- Reads an expression that is nested at most so deep; what cannot be read is unknown. -/
def Expr.ofJson : (depth : Nat) → Json → Expr
  | 0, _ => .unknown
  | depth + 1, j =>
    match j with
    | .obj [("var", name)] => .var (text name)
    | .obj [("field", .arr [base, name])] => .field (ofJson depth base) (text name)
    | .obj [("alloc", type)] => .alloc (TypeRef.ofJson type)
    | .obj [("result", site)] => .result (site.nat?.getD 0)
    | .obj [("assert", .arr [value, type])] => .assert (ofJson depth value) (TypeRef.ofJson type)
    | _ => .unknown

/-- How deep expressions may be nested. -/
def exprDepth : Nat := 1000

/-- Reads what a call names. -/
def Callee.ofJson : Json → Callee
  | .obj [("ident", name)] => .ident (text name)
  | .obj [("qualified", .arr [package, name])] => .qualified (text package) (text name)
  | .obj [("method", .arr [receiver, name])] => .method (Expr.ofJson exprDepth receiver) (text name)
  | _ => .indirect

/-- Reads the facts of a body. -/
def BodyFacts.ofJson (j : Json) : BodyFacts :=
  let expr := Expr.ofJson exprDepth
  { calls := list j "calls" fun c =>
      { line := number c "line", callee := Callee.ofJson (c.field "callee"),
        args := list c "args" expr }
    assigns := list j "assigns" (pair text expr)
    declared := list j "declared" (pair text TypeRef.ofJson)
    fieldStores := list j "field_stores" fun
      | .arr [base, field, value] => ⟨expr base, text field, expr value⟩
      | _ => ⟨.unknown, "", .unknown⟩
    fieldInits := list j "field_inits" fun
      | .arr [type, field, value] => ⟨TypeRef.ofJson type, text field, expr value⟩
      | _ => ⟨⟨"", ""⟩, "", .unknown⟩
    returns := list j "returns" expr
    allocs := list j "allocs" TypeRef.ofJson }

/-- Reads a receiver. -/
def Receiver.ofJson (j : Json) : Receiver :=
  { var := (j.field "var").str?, type := text (j.field "type")
    pointer := (j.field "pointer").bool?.getD false }

/-- Reads a declared function. -/
def FuncDecl.ofJson (j : Json) : FuncDecl :=
  { name := text (j.field "name")
    receiver := optional Receiver.ofJson (j.field "receiver")
    lineStart := number j "line_start"
    lineEnd := number j "line_end"
    params := list j "params" fun p =>
      let (name, type) := pair Json.str? (optional TypeRef.ofJson) p
      { name, type }
    result := optional TypeRef.ofJson (j.field "result")
    body := BodyFacts.ofJson (j.field "body") }

/-- Reads a declared type. -/
def TypeDecl.ofJson (j : Json) : TypeDecl :=
  let embedded := list j "embedded" TypeRef.ofJson
  { name := text (j.field "name")
    shape := match text (j.field "kind") with
      | "struct" => .struct (list j "fields" (pair text TypeRef.ofJson)) embedded
      | "interface" => .interface (list j "methods" text) embedded
      | _ => .other }

/-- Reads the facts of a file. -/
def FileFacts.ofJson (j : Json) : FileFacts :=
  { path := text (j.field "path")
    packageName := text (j.field "package_name")
    packagePath := text (j.field "package_path")
    functions := list j "functions" FuncDecl.ofJson
    types := list j "types" TypeDecl.ofJson }

end CallImpact
