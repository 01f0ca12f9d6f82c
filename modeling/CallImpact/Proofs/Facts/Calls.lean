import CallImpact.Facts.Extract
import CallImpact.Proofs.Go.Spots

/-!
# Calls in a body

Which nodes of a body are calls (`Scope.IsCall`) and what each node allocates
(`Scope.allocated?`), which call the value of an expression comes from (`ComesFrom`), which calls
are nested in another (`NestedIn`), and which entry is that of a call (`IsEntryOf`). All of it is
read off the tree alone, whatever was recorded before.
-/

namespace CallImpact

namespace Go

/-! ## The parts of expressions that are looked at -/

namespace Spot

/-- The operand and the field of a selector that has both. -/
def selector? (n : Spot) : Option (Spot × Spot) :=
  if n.kind = .selectorExpression then
    match n.child? .operand, n.child? .field with
    | some operand, some field => some (operand, field)
    | _, _ => none
  else none

/-- What parentheses enclose. -/
def unparenthesized (n : Spot) : Spot :=
  if n.kind = .parenthesizedExpression then
    match h : n.named with
    | inner :: _ =>
      have : sizeOf inner.node < sizeOf n.node := sizeOf_lt_of_mem_named (h ▸ List.mem_cons_self)
      inner.unparenthesized
    | [] => n
  else n
termination_by sizeOf n.node

/-- The part of an expression that its value is taken from: the operand of a selector, of a type
assertion, of an address or of what a pointer points to, and what parentheses enclose. -/
def followed? (n : Spot) : Option Spot :=
  match n.kind with
  | .selectorExpression => n.selector?.map (·.1)
  | .unaryExpression =>
    if (n.child? .operator).any fun op => op.text == "&" || op.text == "*" then n.child? .operand
    else none
  | .parenthesizedExpression => n.named.head?
  | .typeAssertionExpression => n.child? .operand
  | _ => none

/-- The value whose method is called by a call of the given expression. -/
def calledOn? (function : Spot) : Option Spot :=
  function.unparenthesized.selector?.map (·.1)

/-- A node without an operand or without a field is no selector. -/
theorem selector?_eq_none {n : Spot} (h : ∀ operand field, n.child? .operand = some operand →
    n.child? .field = some field → False) : n.selector? = none := by
  unfold selector?
  split
  · split
    · exact absurd ‹_› (h _ _ ‹_›)
    · rfl
  · rfl

/-- What is not in parentheses is left as it is. -/
theorem unparenthesized_of_kind {n : Spot} (h : n.kind ≠ .parenthesizedExpression) :
    n.unparenthesized = n := by
  rw [unparenthesized, if_neg h]

/-- Parentheses are taken off their first child. -/
theorem unparenthesized_of_cons {n inner : Spot} {rest : List Spot}
    (hkind : n.kind = .parenthesizedExpression) (h : n.named = inner :: rest) :
    n.unparenthesized = inner.unparenthesized := by
  rw [unparenthesized, if_pos hkind]
  split
  · next h' =>
    rw [h, List.cons.injEq] at h'
    rw [h'.1]
  · next h' =>
    rw [h] at h'
    cases h'

/-- Parentheses around nothing are left as they are. -/
theorem unparenthesized_of_nil {n : Spot} (h : n.named = []) : n.unparenthesized = n := by
  rw [unparenthesized]
  split
  · split
    · next h' =>
      rw [h] at h'
      cases h'
    · rfl
  · rfl

/-- The expressions whose values an entry of a call holds: the receiver and the arguments. -/
def parts (call : Spot) : List Spot :=
  ((call.child? .function).bind calledOn?).toList ++ call.namedIn .arguments

end Spot

end Go

open Go (Spot)

/-! ## Calls, and what belongs to them -/

/-- Whether a node is a call, and not one of `new` that allocates a known type. -/
def Scope.IsCall (scope : Scope) (n : Spot) : Prop :=
  n.kind = .callExpression ∧ Walk.newType? scope n = none

instance (scope : Scope) : DecidablePred scope.IsCall := fun n =>
  inferInstanceAs (Decidable (n.kind = .callExpression ∧ Walk.newType? scope n = none))

/-- The type that a node allocates: a literal of a known type, or a call of `new`. -/
def Scope.allocated? (scope : Scope) (n : Spot) : Option TypeRef :=
  match n.kind with
  | .callExpression => Walk.newType? scope n
  | .compositeLiteral => (n.child? .type).bind fun t => scope.typeRef? t.node
  | _ => none

/-- Whether the value of an expression comes from a call. -/
inductive ComesFrom (scope : Scope) : Spot → Spot → Prop where
  | call {n : Spot} : scope.IsCall n → ComesFrom scope n n
  | through {n part c : Spot} : n.followed? = some part → ComesFrom scope part c →
    ComesFrom scope n c

/-- Whether the value of a part of a call comes from another call. -/
def NestedIn (scope : Scope) (inner outer : Spot) : Prop :=
  ∃ part ∈ outer.parts, ComesFrom scope part inner

/-- Whether a callee is what a call of an expression names. Names that are bound in the body are not
names of functions or packages, so a name has two readings. -/
def IsNamedBy (scope : Scope) (function : Spot) (callee : Callee) : Prop :=
  match function.selector? with
  | some (operand, field) =>
    (∃ package, operand.kind = .identifier ∧ scope.imports.lookup operand.text = some package ∧
      callee = .qualified package field.text) ∨ ∃ receiver, callee = .method receiver field.text
  | none => function.kind = .identifier ∧ callee = .ident function.text ∨ callee = .indirect

/-- Whether an entry belongs to a call: it has its line, what it calls and all its arguments. -/
structure IsEntryOf (scope : Scope) (call : Spot) (site : CallSite) : Prop where
  line : site.line = ((call.child? .arguments).getD call).node.startLine
  callee : match call.child? .function with
    | some function => IsNamedBy scope function.unparenthesized site.callee
    | none => site.callee = .indirect
  args : site.args.length = (call.namedIn .arguments).length

section
variable {scope : Scope} {n part c : Spot}

/-- A value comes from what the part comes from that it is taken from. -/
theorem ComesFrom.of_followed (h : ComesFrom scope n c) (hpart : n.followed? = some part) :
    ComesFrom scope part c := by
  cases h with
  | call hcall =>
    rw [Spot.followed?, hcall.1] at hpart
    cases hpart
  | through hpart' hc =>
    rw [hpart, Option.some.injEq] at hpart'
    exact hpart' ▸ hc

/-- A value that is no call and is taken from no part comes from no call. -/
theorem not_comesFrom (hcall : ¬ scope.IsCall n) (hpart : n.followed? = none) :
    ¬ ComesFrom scope n c := by
  intro h
  cases h with
  | call h => exact hcall h
  | through h _ => rw [hpart] at h; cases h

end

end CallImpact
