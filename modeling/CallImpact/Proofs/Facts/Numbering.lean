import CallImpact.Facts

/-!
# Numbers of calls

Facts about a body refer to its calls by number. `BodyFacts.RefersToCalls` says that every such
number belongs to a call of the body, and `BodyFacts.IsNumbered` that within a call it belongs to
an earlier one.
-/

namespace CallImpact

/-- Whether a value refers to calls with numbers below a bound only. -/
def Expr.Below (bound : Nat) : Expr → Prop
  | .var _ | .alloc _ | .unknown => True
  | .field base _ => base.Below bound
  | .result site => site < bound
  | .assert value _ => value.Below bound

/-- Numbers below a bound are below a larger one. -/
theorem Expr.Below.mono {e : Expr} {m n : Nat} (h : e.Below m) (hmn : m ≤ n) : e.Below n := by
  induction e with
  | var name => trivial
  | alloc type => trivial
  | unknown => trivial
  | field base name ih => exact ih h
  | result site => exact Nat.lt_of_lt_of_le h hmn
  | assert value type ih => exact ih h

/-- The values that a call refers to: its arguments and the receiver. -/
def CallSite.values (site : CallSite) : List Expr :=
  match site.callee with
  | .method receiver _ => receiver :: site.args
  | .ident _ | .qualified _ _ | .indirect => site.args

/-- Whether the receiver that a call names refers to calls with numbers below a bound only. -/
def Callee.Below (bound : Nat) : Callee → Prop
  | .method receiver _ => receiver.Below bound
  | .ident _ | .qualified _ _ | .indirect => True

/-- Numbers in a callee that are below a bound are below a larger one. -/
theorem Callee.Below.mono {c : Callee} {m n : Nat} (h : c.Below m) (hmn : m ≤ n) : c.Below n := by
  cases c with
  | method receiver name => exact Expr.Below.mono h hmn
  | ident name => trivial
  | qualified package name => trivial
  | indirect => trivial

/-- The values of a call are those of its callee and its arguments. -/
theorem CallSite.below_of_mem_values {site : CallSite} {n : Nat} (hcallee : site.callee.Below n)
    (hargs : ∀ e ∈ site.args, e.Below n) : ∀ e ∈ site.values, e.Below n := by
  obtain ⟨line, callee, args⟩ := site
  cases callee with
  | method receiver name => exact List.forall_mem_cons.mpr ⟨hcallee, hargs⟩
  | ident name => exact hargs
  | qualified package name => exact hargs
  | indirect => exact hargs

/-- The values in a body that belong to no call. -/
def BodyFacts.values (body : BodyFacts) : List Expr :=
  body.assigns.map (·.2) ++ body.fieldStores.map (·.base) ++ body.fieldStores.map (·.value) ++
    body.fieldInits.map (·.value) ++ body.returns

/-- A property holds of all values when it does of those that are assigned, stored, set from the
start and returned. -/
theorem BodyFacts.forall_mem_values {body : BodyFacts} {q : Expr → Prop} :
    (∀ e ∈ body.values, q e) ↔
      (∀ a ∈ body.assigns, q a.2) ∧ (∀ s ∈ body.fieldStores, q s.base ∧ q s.value) ∧
        (∀ i ∈ body.fieldInits, q i.value) ∧ ∀ e ∈ body.returns, q e := by
  simp only [BodyFacts.values, List.forall_mem_append, List.forall_mem_map, forall_and, and_assoc]

/-- Whether all numbers in a body belong to its calls. -/
structure BodyFacts.RefersToCalls (body : BodyFacts) : Prop where
  values : ∀ e ∈ body.values, e.Below body.calls.length
  calls : ∀ site ∈ body.calls, ∀ e ∈ site.values, e.Below body.calls.length

/-- Whether all numbers in a body belong to its calls, those in a call to earlier ones. -/
structure BodyFacts.IsNumbered (body : BodyFacts) : Prop where
  values : ∀ e ∈ body.values, e.Below body.calls.length
  calls : ∀ (number : Nat) (site : CallSite), body.calls[number]? = some site →
    ∀ e ∈ site.values, e.Below number

/-- The values of a call refer to calls of the body. -/
theorem BodyFacts.IsNumbered.below_of_mem {body : BodyFacts} (h : body.IsNumbered)
    {site : CallSite} (hs : site ∈ body.calls) {e : Expr} (he : e ∈ site.values) :
    e.Below body.calls.length := by
  obtain ⟨number, hlt, hsite⟩ := List.getElem_of_mem hs
  exact (h.calls number site (List.getElem?_eq_some_iff.mpr ⟨hlt, hsite⟩) e he).mono
    (Nat.le_of_lt hlt)

/-- Numbers of earlier calls are numbers of calls. -/
theorem BodyFacts.IsNumbered.refersToCalls {body : BodyFacts} (h : body.IsNumbered) :
    body.RefersToCalls :=
  ⟨h.values, fun _ hs _ he => h.below_of_mem hs he⟩

end CallImpact
