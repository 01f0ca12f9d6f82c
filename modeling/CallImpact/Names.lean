import CallImpact.Text.Case
import CallImpact.Text.Cut

/-!
# Names of functions

A function has a full name, in which a method shows its receiver in parentheses, and a canonical
name, which drops the parentheses and the pointer mark.
-/

namespace CallImpact

/-- The full name of a function: `pkg.F`, `(pkg.T).M` or `(*pkg.T).M`. -/
def fullName (package : String) (receiver : Option (String × Bool)) (name : String) : String :=
  match receiver with
  | some (type, true) => "(*" ++ package ++ "." ++ type ++ ")." ++ name
  | some (type, false) => "(" ++ package ++ "." ++ type ++ ")." ++ name
  | none => package ++ "." ++ name

/-- A full name without parentheses and pointer mark; any other text stays as it is. -/
def canonicalName (full : String) : String :=
  match Text.after? "(" full with
  | none => full
  | some rest =>
    match Text.cut? ")." ((Text.after? "*" rest).getD rest) with
    | some (receiver, method) => receiver ++ "." ++ method
    | none => full

/-- Whether a name is visible outside its package: it starts with an upper-case letter. -/
def isExported (name : String) : Bool :=
  name.toList.head?.any Text.isUppercase

/-- A short name for people: the last segment of the package and the function's name. -/
def displayName (package function : String) : String :=
  Text.lastPiece '/' package ++ "." ++ function

end CallImpact
