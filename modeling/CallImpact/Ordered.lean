/-!
# Ordered sets as lists

Lists kept in increasing order without repeats, for the places where the order of a set shows.
-/

namespace CallImpact

/-- Inserts into an increasing list, unless the element is there. -/
def insertOrdered {α : Type} (lt : α → α → Bool) (x : α) : List α → List α
  | [] => [x]
  | y :: ys =>
    if lt x y then x :: y :: ys
    else if lt y x then y :: insertOrdered lt x ys
    else y :: ys

/-- The elements of a list in increasing order and without repeats. -/
def orderedSet {α : Type} (lt : α → α → Bool) (xs : List α) : List α :=
  xs.foldl (fun set x => insertOrdered lt x set) []

/-- Numbers in increasing order and without repeats. -/
def orderedNats (xs : List Nat) : List Nat :=
  orderedSet (fun a b => decide (a < b)) xs

/-- Texts in increasing order and without repeats. -/
def orderedTexts (xs : List String) : List String :=
  orderedSet (fun a b => decide (a < b)) xs

/-- The elements of a list without repeats, each where it occurs first. -/
def firstOccurrences {α : Type} [BEq α] (xs : List α) : List α :=
  (xs.foldl (fun kept x => if kept.contains x then kept else x :: kept) []).reverse

end CallImpact
