import CallImpact.Algorithm

/-!
# Step budgets

Construction may take a bounded number of steps. The budget is a plain counter: a step takes one
from it and fails when nothing is left.
-/

namespace CallImpact

/-- A computation that spends steps and may fail. -/
abbrev Budgeted := StateT Nat (Except Cause)

/-- Spends one step. -/
def tick : Budgeted Unit := fun budget =>
  match budget with
  | 0 => .error .outOfSteps
  | n + 1 => .ok ((), n)

/-- The element of a list with a number, which must exist. -/
def element {α : Type} (xs : List α) (i : Nat) : Budgeted α := fun budget =>
  match xs[i]? with
  | some x => .ok (x, budget)
  | none => .error (.outOfBounds xs.length i)

/-- Runs a computation with a budget. -/
def Budgeted.run {α : Type} (budget : Nat) (m : Budgeted α) : Except Cause α :=
  (m budget).map (·.1)

end CallImpact
