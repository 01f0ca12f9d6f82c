import CallImpact.Facts.Declarations
import CallImpact.Names

/-!
# Spans of functions

The lines that each declared function or method of a file covers, with a name that agrees with the
canonical name of the same function in a call graph.
-/

namespace CallImpact

open Go (Node)

/-- A declared function and the lines it covers, both ends included. -/
structure FunctionSpan where
  qualifiedName : String
  name : String
  receiver : Option String
  startLine : Nat
  endLine : Nat
  deriving Repr, BEq, DecidableEq, Inhabited

/-- Whether a span and a range of lines share a line. -/
def FunctionSpan.overlaps (s : FunctionSpan) (first last : Nat) : Bool :=
  s.startLine ≤ last && first ≤ s.endLine

/-- The span of one declaration. -/
def spanOf? (packagePath : String) (decl : Node) : Option FunctionSpan := do
  let receiver ← match decl.kind with
    | .functionDeclaration => some none
    | .methodDeclaration => some ((receiver? decl).map (·.type))
    | _ => none
  let name ← decl.child? .name
  let qualifiedName := match receiver with
    | some type => packagePath ++ "." ++ type ++ "." ++ name.text
    | none => packagePath ++ "." ++ name.text
  return { qualifiedName, name := name.text, receiver,
           startLine := decl.startLine, endLine := decl.endLine }

/-- The spans of all functions and methods that a file declares, in order. -/
def functionSpans (root : Node) (packagePath : String) : List FunctionSpan :=
  root.named.filterMap (spanOf? packagePath)

end CallImpact
