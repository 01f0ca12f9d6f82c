import CallImpact.Program

/-!
# Static types and dispatch

The static type of an expression, as far as the module's source tells, and from it how each call
selects what it calls. Chains of variables, fields and results are followed a bounded number of
steps; what is left open then is unknown.
-/

namespace CallImpact

/-- The static type of an expression. -/
inductive StaticType where
  /-- A type that the module declares. -/
  | named (type : TypeRef)
  /-- A type from outside the module. -/
  | foreign
  | unknown
  deriving Repr, BEq, DecidableEq, Inhabited

/-- How a call selects what it calls. -/
inductive Dispatch where
  | static (callee : Nat)
  /-- A method of an interface of the module. -/
  | interface (iface : TypeRef) (method : String)
  /-- A method of a value whose type is unknown. -/
  | dynamic (method : String)
  /-- Something outside the module, or a function value. -/
  | external
  deriving Repr, BEq, DecidableEq, Inhabited

namespace Dispatch

/-- The method that a call selects by the type of its receiver. -/
def method? : Dispatch → Option String
  | .interface _ method | .dynamic method => some method
  | .static _ | .external => none

end Dispatch

namespace Program

/-- A type reference as a static type. -/
def classify (p : Program) (t : TypeRef) : StaticType :=
  if p.declares t then .named t else .foreign

/-- An optional type reference as a static type. -/
def classify? (p : Program) : Option TypeRef → StaticType
  | some t => p.classify t
  | none => .unknown

/-- The first type among those of the expressions that is not unknown. -/
def firstKnown (typeOf : Expr → StaticType) : List Expr → StaticType
  | [] => .unknown
  | e :: es =>
    match typeOf e with
    | .unknown => firstKnown typeOf es
    | known => known

/-- The type of a variable that is not the receiver: of a parameter, a declaration, or a value
given to it. -/
def localType (p : Program) (f : Function) (typeOf : Expr → StaticType) (name : String) :
    StaticType :=
  match f.decl.params.find? fun param => param.name == some name with
  | some param => p.classify? param.type
  | none =>
    match f.decl.body.declared.lookup name with
    | some type => p.classify type
    | none => firstKnown typeOf ((f.decl.body.assigns.filter fun (n, _) => n == name).map (·.2))

/-- The type of a variable; the receiver comes before all else. -/
def variableType (p : Program) (f : Function) (typeOf : Expr → StaticType) (name : String) :
    StaticType :=
  match f.decl.receiver with
  | some r =>
    if r.var = some name then .named ⟨f.package, r.type⟩ else p.localType f typeOf name
  | none => p.localType f typeOf name

/-- The direct call of a function that may be missing. -/
def directly : Option Nat → Dispatch
  | some callee => .static callee
  | none => .external

/-- How a call selects what it calls, when `typeOf` gives the type of its receiver. -/
def dispatchSite (p : Program) (f : Function) (typeOf : Expr → StaticType) (site : CallSite) :
    Dispatch :=
  match site.callee with
  | .ident name => directly (p.packageFunction? f.package name)
  | .qualified package name => directly (p.packageFunction? package name)
  | .method receiver method =>
    match typeOf receiver with
    | .named t =>
      if p.isInterface t then .interface t method else directly (p.lookupMethod? t method)
    | .foreign => .external
    | .unknown => .dynamic method
  | .indirect => .external

/-- The declared type of a function's first result. -/
def resultOf (p : Program) (callee : Nat) : StaticType :=
  p.classify? (p.functions[callee]?.bind (·.decl.result))

/-- The type of what a name of a package yields when it is called: a function's result, or the type
itself when it is a conversion. -/
def callResult (p : Program) (package name : String) : StaticType :=
  match p.packageFunction? package name with
  | some callee => p.resultOf callee
  | none => p.classify ⟨package, name⟩

/-- The type of the result of a call, when `typeOf` gives the type of its receiver. -/
def siteResult (p : Program) (f : Function) (typeOf : Expr → StaticType) (number : Nat) :
    StaticType :=
  match f.decl.body.calls[number]? with
  | none => .unknown
  | some site =>
    match site.callee with
    | .ident name => p.callResult f.package name
    | .qualified package name => p.callResult package name
    | .method _ _ =>
      match p.dispatchSite f typeOf site with
      | .static callee => p.resultOf callee
      | .external => .foreign
      | .interface _ _ | .dynamic _ => .unknown
    | .indirect => .unknown

/-- The static type of an expression, followed through at most `steps` steps. A call takes two: one
to its site and one to its receiver. -/
def typeOf (p : Program) (f : Function) : (steps : Nat) → Expr → StaticType
  | 0, _ => .unknown
  | steps + 1, .var name => p.variableType f (p.typeOf f steps) name
  | steps + 1, .field base name =>
    match p.typeOf f steps base with
    | .named owner => p.classify? (p.fieldType? owner name)
    | other => other
  | _ + 1, .alloc type => p.classify type
  | _ + 1, .assert _ type => p.classify type
  | 1, .result number => p.siteResult f (fun _ => .unknown) number
  | steps + 2, .result number => p.siteResult f (p.typeOf f steps) number
  | _ + 1, .unknown => .unknown

/-- How many steps the static type of an expression is followed. -/
def typeSteps : Nat := 9

/-- The static type of an expression of a function. -/
def staticType (p : Program) (f : Function) (e : Expr) : StaticType :=
  p.typeOf f typeSteps e

/-- How the call with a number selects what it calls. -/
def dispatch (p : Program) (f : Function) (number : Nat) : Dispatch :=
  match f.decl.body.calls[number]? with
  | some site => p.dispatchSite f (p.typeOf f (typeSteps - 1)) site
  | none => .external

/-- The dispatch of every call of a function. -/
def dispatches (p : Program) (f : Function) : List Dispatch :=
  (List.range f.decl.body.calls.length).map (p.dispatch f)

end Program

end CallImpact
