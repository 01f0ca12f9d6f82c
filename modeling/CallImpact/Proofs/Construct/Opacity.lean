import CallImpact.Construct
import CallImpact.Proofs.Construct.Outcome
import Mathlib

/-!
# Values that type flow does not follow

A value is not followed when it comes from an unknown expression, from a field of a value of foreign
or unknown type, or from a call without a target (`Expr.IsUnmodelled`). A place is opaque when such
a value flows to it, directly or through other places (`Opaque`). A dynamic call on a receiver that
is itself not followed keeps all targets of the type hierarchy (`unmodelled_keeps_targets`). A
receiver that reads an opaque place does not: that part of a value is not followed is forgotten as
soon as the value flows (`opaque_loses_targets`).
-/

namespace CallImpact

/-! ## Values and places -/

/-- Whether an expression of a function has a value that is not followed. -/
def Expr.IsUnmodelled (p : Program) (f : Function) : Expr → Prop
  | .var _ | .alloc _ => False
  | .field base _ => p.staticType f base = .foreign ∨ p.staticType f base = .unknown
  | .result site => (targetsOf p f)[site]? = some []
  | .assert value _ => value.IsUnmodelled p f
  | .unknown => True

/-- Whether an expression of a function with a number reads a place. -/
def Expr.Reads (p : Program) (number : Nat) (f : Function) (s : Slot) : Expr → Prop
  | .var name => s = .variable number name
  | .field base name => ∃ owner, p.staticType f base = .named owner ∧
      s = .field (p.ownerOf owner name) name
  | .result site => ∃ callees, (targetsOf p f)[site]? = some callees ∧
      ∃ callee ∈ callees, s = .result callee
  | .assert value _ => value.Reads p number f s
  | .alloc _ | .unknown => False

/-- Whether the value of an expression of a function flows to a place directly. -/
inductive FlowsTo (p : Program) (number : Nat) (f : Function) : Expr → Slot → Prop where
  | assign {name : String} {value : Expr} :
      (name, value) ∈ f.decl.body.assigns → FlowsTo p number f value (.variable number name)
  /-- A field store, a field of a literal or a `return`. -/
  | store {value : Expr} {s : Slot} :
      (value, s) ∈ FlowGraph.localFlows p number f → FlowsTo p number f value s
  /-- An argument or the receiver of a call. -/
  | call {site callee : Nat} {call : CallSite} {callees : List Nat} {g : Function} {value : Expr}
      {s : Slot} :
      f.decl.body.calls[site]? = some call → (targetsOf p f)[site]? = some callees →
      callee ∈ callees → p.functions[callee]? = some g →
      (value, s) ∈ FlowGraph.callFlows callee g call → FlowsTo p number f value s

/-- Whether part of what flows to a place is not followed. -/
inductive Opaque (p : Program) : Slot → Prop where
  | source {number : Nat} {f : Function} {value : Expr} {s : Slot} :
      p.functions[number]? = some f → FlowsTo p number f value s → value.IsUnmodelled p f →
      Opaque p s
  | flow {number : Nat} {f : Function} {value : Expr} {s source : Slot} :
      p.functions[number]? = some f → FlowsTo p number f value s → value.Reads p number f source →
      Opaque p source → Opaque p s

/-- Whether a function with a number has a call of a method on a receiver, by an interface or on a
value of unknown type. -/
structure IsDynamicCall (p : Program) (caller site : Nat) (f : Function) (d : Dispatch)
    (receiver : Expr) : Prop where
  function : p.functions[caller]? = some f
  dispatch : (p.dispatches f)[site]? = some d
  dynamic : d.method?.isSome
  receiver : ∃ call name, f.decl.body.calls[site]? = some call ∧
    call.callee = .method receiver name

/-! ## Receivers that are not followed -/

namespace FlowGraph

/-- Of an expression that is not followed nothing else is known. -/
theorem sources_of_isUnmodelled {p : Program} {number : Nat} {f : Function} {e : Expr}
    (h : e.IsUnmodelled p f) :
    Ensures (fun _ => True) (sources p number f (targetsOf p f) e) fun known =>
      known.unmodelled ∧ known.slots = [] ∧ known.types = [] := by
  induction e with
  | var name => exact h.elim
  | alloc type => exact h.elim
  | field base name =>
    unfold sources
    split
    · rename_i owner hnamed
      rcases h with hforeign | hunknown
      · rw [hnamed] at hforeign
        cases hforeign
      · rw [hnamed] at hunknown
        cases hunknown
    · exact .pure ⟨rfl, rfl, rfl⟩
    · exact .pure ⟨rfl, rfl, rfl⟩
  | result site =>
    refine (Ensures.element fun _ => trivial).bind fun callees hcallees => .pure ?_
    obtain rfl : callees = [] := Option.some.inj (hcallees.symm.trans h)
    exact ⟨rfl, rfl, rfl⟩
  | assert value type ih => exact ih h
  | unknown => exact .pure ⟨rfl, rfl, rfl⟩

/-- A dynamic call on a receiver that is not followed has all callees of the type hierarchy. -/
theorem callees_of_isUnmodelled {p : Program} {arrivals : Arrivals} {number : Nat} {f : Function}
    {d : Dispatch} {call : CallSite} {receiver : Expr} {name : String} (hd : d.method?.isSome)
    (hcall : call.callee = .method receiver name) (h : receiver.IsUnmodelled p f) :
    Ensures (fun _ => True)
      (callees p arrivals number f (targetsOf p f) d call (hierarchyTargets p d))
      (· = hierarchyTargets p d) := by
  obtain ⟨method, hmethod⟩ := Option.isSome_iff_exists.mp hd
  rw [callees_of_method hmethod hcall]
  refine (sources_of_isUnmodelled h).bind fun known hknown => ?_
  obtain ⟨hunmodelled, hslots, htypes⟩ := hknown
  rw [hunmodelled, hslots, htypes]
  exact .pure rfl

end FlowGraph

/-- Whatever the program and the number of steps: type flow keeps all targets that the type
hierarchy has for a dynamic call whose receiver is itself not followed. -/
theorem unmodelled_keeps_targets {p : Program} {entries : List Nat} {maxSteps : Nat}
    {r : Resolution} (h : construct p .typeFlow entries maxSteps = .ok r) {caller site : Nat}
    {f : Function} {d : Dispatch} {receiver : Expr}
    (hcall : IsDynamicCall p caller site f d receiver) (hreceiver : receiver.IsUnmodelled p f)
    (callee : Nat) : ⟨caller, site, callee⟩ ∈ r.edges ↔ callee ∈ hierarchyTargets p d := by
  have heach : Settles (fun _ => True) (buildTypeFlow p) fun r =>
      ∃ table, r = { edges := edgesOf table } ∧ EachCall p (fun _ f d call cs => d.method?.isSome →
        ∀ receiver name, call.callee = .method receiver name → receiver.IsUnmodelled p f →
          cs = hierarchyTargets p d) table :=
    buildTypeFlow_settles (fun _ _ => .inr fun _ _ => trivial)
      fun arrivals caller f d call _ _ _ => ?_
  · obtain ⟨table, hr, htable⟩ := (heach.ensures trivial).of_run (run_of_construct h)
    obtain ⟨call, name, hsite, hmethod⟩ := hcall.receiver
    obtain ⟨sites, cs, hsites, hcs, hkept⟩ := htable.callees hcall.function hcall.dispatch hsite
    rw [hr, ← hkept hcall.dynamic receiver name hmethod hreceiver]
    exact mem_edgesOf_of_getElem? hsites hcs
  · -- a call of another kind has no receiver that the property asks about
    by_cases hkind : d.method?.isSome ∧ ∃ receiver name, call.callee = .method receiver name ∧
        receiver.IsUnmodelled p f
    · obtain ⟨hd, receiver, name, hmethod, hunmodelled⟩ := hkind
      exact (FlowGraph.callees_of_isUnmodelled hd hmethod hunmodelled).mono
        fun cs hcs _ _ _ _ _ => hcs
    · intro budget
      split
      · exact fun hd receiver name hmethod hunmodelled =>
          absurd ⟨hd, receiver, name, hmethod, hunmodelled⟩ hkind
      · trivial

/-! ## Receivers that read opaque places -/

/-- A function that makes a value outside the module, and then calls a method on a receiver. -/
def notifier (declared : List (String × TypeRef)) (assigns : List (String × Expr))
    (receiver : Expr) : Function :=
  { package := "m", packageName := "", file := "x.go"
    decl :=
      { name := "Run"
        body :=
          { calls := [⟨1, .qualified "ext" "Make", []⟩, ⟨2, .method receiver "Notify", []⟩]
            assigns, declared } } }

/-- A module with one type that has the method of its one interface, and a function that calls the
method. -/
def notifying (run : Function) : Program :=
  { modulePath := "m"
    functions :=
      [{ package := "m", packageName := "", file := "x.go"
         decl := { name := "Notify", receiver := some ⟨none, "Email", true⟩ } },
       run]
    types := [(⟨"m", "Notifier"⟩, .interface ["Notify"] []), (⟨"m", "Email"⟩, .struct [] [])] }

/-- The case of a receiver of which nothing at all is known. -/
theorem unmodelled_keeps_targets_notifying :
    construct (notifying (notifier [] [] .unknown)) .typeFlow [] 10 = .ok { edges := [⟨1, 1, 0⟩] } ∧
      0 ∈ hierarchyTargets (notifying (notifier [] [] .unknown)) (.dynamic "Notify") := by
  have hrun : construct (notifying (notifier [] [] .unknown)) .typeFlow [] 10 =
      .ok { edges := [⟨1, 1, 0⟩] } := by cbv
  have hcall : IsDynamicCall (notifying (notifier [] [] .unknown)) 1 1 (notifier [] [] .unknown)
      (.dynamic "Notify") .unknown :=
    ⟨rfl, by cbv, rfl, _, _, rfl, rfl⟩
  exact ⟨hrun, (unmodelled_keeps_targets hrun hcall trivial 0).mp List.mem_cons_self⟩

/-- A value that is made outside the module flows into a variable of the interface. The variable is
opaque, and yet the call on it loses the one target that it has by the type hierarchy. -/
theorem opaque_loses_targets :
    let run := notifier [("n", ⟨"m", "Notifier"⟩)] [("n", .result 0)] (.var "n")
    let d : Dispatch := .interface ⟨"m", "Notifier"⟩ "Notify"
    construct (notifying run) .typeFlow [] 10 = .ok { edges := [] } ∧
      IsDynamicCall (notifying run) 1 1 run d (.var "n") ∧
      (Expr.var "n").Reads (notifying run) 1 run (.variable 1 "n") ∧
      Opaque (notifying run) (.variable 1 "n") ∧
      hierarchyTargets (notifying run) d = [0] := by
  intro run d
  refine ⟨by cbv, ⟨rfl, by cbv, rfl, _, _, rfl, rfl⟩, rfl, ?_, by cbv⟩
  have hassign : FlowsTo (notifying run) 1 run (.result 0) (.variable 1 "n") :=
    .assign List.mem_cons_self
  have hresult : (Expr.result 0).IsUnmodelled (notifying run) run := by cbv
  exact .source rfl hassign hresult

end CallImpact
