/-!
# Facts about source files

What the analysis keeps of a Go file: its types, its functions, and for every function body the
calls it makes and the values that flow through it. Facts never refer across files; a call names
what it calls, and the program model resolves it.
-/

namespace CallImpact

/-- A named type: the import path of its package, and its name. -/
structure TypeRef where
  package : String
  name : String
  deriving Repr, BEq, DecidableEq, Hashable, Inhabited

instance : LawfulBEq TypeRef where
  eq_of_beq {a b} h := by
    cases a; cases b
    simp only [BEq.beq, instBEqTypeRef.beq, Bool.and_eq_true, decide_eq_true_eq] at h
    simp [h.1, h.2]
  rfl {a} := by
    cases a
    simp [BEq.beq, instBEqTypeRef.beq]

/-- Types are ordered by package, then by name. -/
def TypeRef.le (a b : TypeRef) : Bool :=
  a.package < b.package || (a.package == b.package && a.name ≤ b.name)

/-- The value of an expression, as far as it can be followed. -/
inductive Expr where
  | var (name : String)
  | field (base : Expr) (name : String)
  | alloc (type : TypeRef)
  /-- The result of the call with this number in the same body. -/
  | result (site : Nat)
  | assert (value : Expr) (type : TypeRef)
  | unknown
  deriving Repr, BEq, DecidableEq, Inhabited

/-- What a call names. -/
inductive Callee where
  /-- A function of the same package. -/
  | ident (name : String)
  /-- A function of an imported package. -/
  | qualified (package name : String)
  /-- A method of a value. -/
  | method (receiver : Expr) (name : String)
  /-- A function value. -/
  | indirect
  deriving Repr, BEq, DecidableEq, Inhabited

/-- A call in a function body. -/
structure CallSite where
  line : Nat
  callee : Callee
  args : List Expr
  deriving Repr, BEq, DecidableEq, Inhabited

/-- The assignment of a value to a field. -/
structure FieldStore where
  base : Expr
  field : String
  value : Expr
  deriving Repr, BEq, DecidableEq, Inhabited

/-- The field of a type that a literal sets, and the value. -/
structure FieldInit where
  type : TypeRef
  field : String
  value : Expr
  deriving Repr, BEq, DecidableEq, Inhabited

/-- What a function body does, the bodies of function literals in it included. -/
structure BodyFacts where
  calls : List CallSite := []
  /-- Values given to variables. -/
  assigns : List (String × Expr) := []
  /-- Variables with declared types. -/
  declared : List (String × TypeRef) := []
  fieldStores : List FieldStore := []
  fieldInits : List FieldInit := []
  /-- The first value of each `return`. -/
  returns : List Expr := []
  /-- The types that are allocated. -/
  allocs : List TypeRef := []
  deriving Repr, BEq, DecidableEq, Inhabited

/-- The receiver of a method. -/
structure Receiver where
  var : Option String
  type : String
  pointer : Bool
  deriving Repr, BEq, DecidableEq, Inhabited

/-- A parameter, without a name when it is blank or not given. -/
structure Param where
  name : Option String
  type : Option TypeRef
  deriving Repr, BEq, DecidableEq, Inhabited

/-- A declared function or method. -/
structure FuncDecl where
  name : String
  receiver : Option Receiver := none
  lineStart : Nat := 0
  lineEnd : Nat := 0
  params : List Param := []
  /-- The type of the first result. -/
  result : Option TypeRef := none
  body : BodyFacts := {}
  deriving Repr, BEq, DecidableEq, Inhabited

/-- What kind of type a declaration defines. -/
inductive TypeShape where
  | struct (fields : List (String × TypeRef)) (embedded : List TypeRef)
  | interface (methods : List String) (embedded : List TypeRef)
  | other
  deriving Repr, BEq, DecidableEq, Inhabited

/-- A declared type. -/
structure TypeDecl where
  name : String
  shape : TypeShape
  deriving Repr, BEq, DecidableEq, Inhabited

/-- What is kept of one file. Its path is relative to the module's root. -/
structure FileFacts where
  path : String
  packageName : String
  packagePath : String
  functions : List FuncDecl := []
  types : List TypeDecl := []
  deriving Repr, BEq, DecidableEq, Inhabited

end CallImpact
