import CallImpact.Construct.Rapid
import CallImpact.Construct.TypeFlow

/-!
# Construction

One function for all algorithms, and the way from an algorithm that fails to a cheaper one.
-/

namespace CallImpact

/-- The construction of an algorithm. Only rapid type analysis looks at the entries. -/
def construction (p : Program) (entries : List Nat) : Algorithm → Budgeted Resolution
  | .direct => buildDirect p
  | .hierarchy => buildHierarchy p
  | .rapid => buildRapid p entries
  | .typeFlow => buildTypeFlow p

/-- Builds the graph of a program within a number of steps. -/
def construct (p : Program) (algorithm : Algorithm) (entries : List Nat) (maxSteps : Nat) :
    Except Failure Resolution :=
  match (construction p entries algorithm).run maxSteps with
  | .ok r => .ok r
  | .error cause => .error { algorithm, cause }

/-- The algorithm to try after one that failed. -/
def Algorithm.fallback? : Algorithm → Option Algorithm
  | .rapid | .typeFlow => some .hierarchy
  | .hierarchy => some .direct
  | .direct => none

/-- A resolution, the algorithm that found it, and the failure of the one that was asked for, if it
failed. -/
structure Attempted where
  algorithm : Algorithm
  resolution : Resolution
  failure : Option Failure
  deriving Repr, Inhabited

/-- Tries an algorithm and then, if allowed, the given number of cheaper ones. The failure that
counts is the first. -/
def constructFrom (p : Program) (entries : List Nat) (maxSteps : Nat) (allowFallback : Bool) :
    (more : Nat) → Algorithm → Option Failure → Except Failure Attempted
  | more, algorithm, first =>
    match construct p algorithm entries maxSteps with
    | .ok resolution => .ok { algorithm, resolution, failure := first }
    | .error failure =>
      let first := first.getD failure
      match more, algorithm.fallback? with
      | more + 1, some next =>
        if allowFallback then
          constructFrom p entries maxSteps allowFallback more next (some first)
        else .error first
      | _, _ => .error first

/-- Builds the graph with the algorithm asked for, or with a cheaper one where that is allowed. -/
def constructWithFallback (p : Program) (algorithm : Algorithm) (entries : List Nat)
    (maxSteps : Nat) (allowFallback : Bool) : Except Failure Attempted :=
  constructFrom p entries maxSteps allowFallback Algorithm.all.length algorithm none

end CallImpact
