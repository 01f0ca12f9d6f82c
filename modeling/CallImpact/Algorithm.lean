import CallImpact.Text.Cut
import CallImpact.Text.Case

/-!
# Algorithms and their failures

The four ways to build a call graph, from the cheapest to the most precise, and what can go wrong
while one runs. A failure is a cause; its wording is in `Cause.reason` and `Cause.details`.
-/

namespace CallImpact

/-- A way to build a call graph. -/
inductive Algorithm where
  /-- Direct calls only. -/
  | direct
  /-- Dynamic calls reach every method that fits. -/
  | hierarchy
  /-- Dynamic calls reach the methods of types that reachable code allocates. -/
  | rapid
  /-- Dynamic calls reach the methods of types that flow to the receiver. -/
  | typeFlow
  deriving Repr, BEq, DecidableEq, Inhabited

namespace Algorithm

/-- All algorithms, the cheapest first. -/
def all : List Algorithm :=
  [.direct, .hierarchy, .rapid, .typeFlow]

/-- The algorithm that is used unless another is asked for. -/
def standard : Algorithm :=
  .rapid

/-- The identifier in files and on the command line. -/
def id : Algorithm → String
  | .direct => "static"
  | .hierarchy => "cha"
  | .rapid => "rta"
  | .typeFlow => "vta"

/-- The name for people. -/
def label : Algorithm → String
  | .direct => "Static"
  | .hierarchy => "CHA"
  | .rapid => "RTA"
  | .typeFlow => "VTA"

/-- What to try when the algorithm yields no graph. -/
def suggestion : Algorithm → String
  | .rapid => "check entry-point config or retry with CHA / Static"
  | .typeFlow => "retry with CHA or Static"
  | .hierarchy => "retry with Static"
  | .direct => "check that the module parses cleanly"

/-- The algorithm with an identifier, exactly as written. -/
def ofId? (s : String) : Option Algorithm :=
  all.find? fun a => a.id == s

/-- Reads an identifier, blanks around it and ASCII letter case aside. -/
def parse (s : String) : Except String Algorithm :=
  let wanted := Text.lowercaseAscii (Text.trim s)
  match ofId? wanted with
  | some a => .ok a
  | none => .error ("unknown algorithm '" ++ wanted ++ "' (expected static, cha, rta or vta)")

end Algorithm

/-- Why the construction of a call graph failed. -/
inductive Cause where
  | noEntryPoint
  | outOfSteps
  /-- A reference to the element `index` of a list of `length` elements. -/
  | outOfBounds (length index : Nat)
  /-- Construction ended abnormally and left an account of it, or none. -/
  | aborted (account : Option String)
  | other (reason details : String)
  deriving Repr, BEq, DecidableEq, Inhabited

/-- The failure of one algorithm. -/
structure Failure where
  algorithm : Algorithm
  cause : Cause
  deriving Repr, BEq, DecidableEq, Inhabited

namespace Failure

/-- The reason in a few words. -/
def reason (f : Failure) : String :=
  match f.cause with
  | .noEntryPoint => "no entry point found"
  | .outOfSteps => "analysis did not converge within the step budget"
  | .outOfBounds _ _ | .aborted _ => "construction aborted unexpectedly"
  | .other reason _ => reason

/-- What more there is to say. -/
def details (f : Failure) : String :=
  match f.cause with
  | .noEntryPoint =>
    f.algorithm.label ++ " requires a main() or init() entry, or a configured file:function"
  | .outOfSteps => "raise analysis.max_steps or choose a cheaper algorithm"
  | .outOfBounds length index =>
    s!"index out of bounds: the len is {length} but the index is {index}"
  | .aborted account => account.getD "non-string panic payload"
  | .other _ details => details

/-- What to try next. -/
def suggestion (f : Failure) : String :=
  f.algorithm.suggestion

/-- The message. -/
def message (f : Failure) : String :=
  f.algorithm.label ++ " call graph construction failed: " ++ f.reason

end Failure

/-- How a run of an algorithm ends: with a value, with a failure of its own, or abnormally. -/
inductive Ending (α : Type) where
  | value (a : α)
  | failed (failure : Failure)
  | aborted (account : Option String)
  deriving Repr, Inhabited

/-- The result of a run of an algorithm; an abnormal end is a failure too. -/
def Ending.result {α : Type} (algorithm : Algorithm) : Ending α → Except Failure α
  | .value a => .ok a
  | .failed failure => .error failure
  | .aborted account => .error { algorithm, cause := .aborted account }

end CallImpact
