import CallImpact.Proofs.Construct.Outcome
import Mathlib

/-!
# The order of the algorithms

Direct calls are part of what type flow finds, and that is part of what the type hierarchy has;
so is what rapid type analysis finds, which leaves no direct call of a function out that it reaches
(`edges_ordered_by_precision`). Parts come in the order of the whole.
-/

namespace CallImpact

/-- Whatever the budgets, as far as the constructions work out: direct calls are part of type flow,
type flow and rapid type analysis are part of the type hierarchy, and rapid type analysis has the
direct calls of all functions that it reaches. -/
theorem edges_ordered_by_precision (p : Program) (entries : List Nat) :
    (∀ m n direct flow, construct p .direct entries m = .ok direct →
      construct p .typeFlow entries n = .ok flow → direct.edges.Sublist flow.edges) ∧
    (∀ m n flow hierarchy, construct p .typeFlow entries m = .ok flow →
      construct p .hierarchy entries n = .ok hierarchy → flow.edges.Sublist hierarchy.edges) ∧
    (∀ m n rapid hierarchy, construct p .rapid entries m = .ok rapid →
      construct p .hierarchy entries n = .ok hierarchy → rapid.edges.Sublist hierarchy.edges) ∧
    (∀ m n direct rapid, construct p .direct entries m = .ok direct →
      construct p .rapid entries n = .ok rapid → ∃ covered, rapid.reachable = some covered ∧
        ∀ e ∈ direct.edges, e.caller ∈ covered → e ∈ rapid.edges) := by
  refine ⟨?_, ?_, ?_, ?_⟩
  · intro m n direct flow hdirect hflow
    rw [edges_direct hdirect]
    exact (edges_typeFlow hflow).1
  · intro m n flow hierarchy hflow hhierarchy
    rw [edges_hierarchy hhierarchy]
    exact (edges_typeFlow hflow).2
  · intro m n rapid hierarchy hrapid hhierarchy
    rw [edges_hierarchy hhierarchy]
    obtain ⟨-, -, hsub, -⟩ := edges_rapid hrapid
    exact hsub
  · intro m n direct rapid hdirect hrapid
    obtain ⟨covered, hcovered, -, hsettled⟩ := edges_rapid hrapid
    refine ⟨covered, hcovered, fun e he hcaller => ?_⟩
    rw [edges_direct hdirect] at he
    obtain ⟨d, hsite, hcallee⟩ := mem_edgesOf_dispatchTable.mp he
    cases d with
    | static callee =>
      rw [directTargets, List.mem_singleton] at hcallee
      have hedge := hsettled e.caller hcaller e.site callee hsite
      rwa [← hcallee] at hedge
    | interface iface method => cases hcallee
    | dynamic method => cases hcallee
    | external => cases hcallee

/-- Two types answer a call through an interface, and only one of them is allocated. -/
def twoAnswers : Program :=
  let function (decl : FuncDecl) : Function :=
    { package := "m", packageName := "main", file := "a.go", decl }
  { modulePath := "m"
    functions := [
      function
        { name := "main"
          params := [⟨some "s", some ⟨"m", "Speaker"⟩⟩]
          body :=
            { calls := [⟨4, .method (.var "s") "Speak", []⟩, ⟨5, .ident "helper", []⟩]
              assigns := [("s", .alloc ⟨"m", "Dog"⟩)]
              allocs := [⟨"m", "Dog"⟩] } },
      function { name := "helper" },
      function { name := "Speak", receiver := some ⟨none, "Dog", false⟩ },
      function { name := "Speak", receiver := some ⟨none, "Cat", false⟩ }]
    types := [(⟨"m", "Speaker"⟩, .interface ["Speak"] []), (⟨"m", "Dog"⟩, .other),
      (⟨"m", "Cat"⟩, .other)] }

/-- The case of a call that two types answer, of which only one arrives at the receiver. -/
theorem edges_ordered_by_precision_twoAnswers :
    ([⟨0, 1, 1⟩] : List Edge).Sublist [⟨0, 0, 2⟩, ⟨0, 1, 1⟩] ∧
    ([⟨0, 0, 2⟩, ⟨0, 1, 1⟩] : List Edge).Sublist [⟨0, 0, 2⟩, ⟨0, 0, 3⟩, ⟨0, 1, 1⟩] ∧
    ([⟨0, 0, 2⟩, ⟨0, 1, 1⟩] : List Edge).Sublist [⟨0, 0, 2⟩, ⟨0, 0, 3⟩, ⟨0, 1, 1⟩] ∧
    ∃ covered, some [0, 1, 2] = some covered ∧ ∀ e ∈ ([⟨0, 1, 1⟩] : List Edge),
      e.caller ∈ covered → e ∈ ([⟨0, 0, 2⟩, ⟨0, 1, 1⟩] : List Edge) := by
  have hdirect : construct twoAnswers .direct [0] 4 = .ok { edges := [⟨0, 1, 1⟩] } := by cbv
  have hflow : construct twoAnswers .typeFlow [0] 9 =
      .ok { edges := [⟨0, 0, 2⟩, ⟨0, 1, 1⟩] } := by cbv
  have hhierarchy : construct twoAnswers .hierarchy [0] 2 =
      .ok { edges := [⟨0, 0, 2⟩, ⟨0, 0, 3⟩, ⟨0, 1, 1⟩] } := by cbv
  have hrapid : construct twoAnswers .rapid [0] 9 =
      .ok { edges := [⟨0, 0, 2⟩, ⟨0, 1, 1⟩], reachable := some [0, 1, 2] } := by cbv
  obtain ⟨h1, h2, h3, h4⟩ := edges_ordered_by_precision twoAnswers [0]
  exact ⟨h1 4 9 _ _ hdirect hflow, h2 9 2 _ _ hflow hhierarchy, h3 9 2 _ _ hrapid hhierarchy,
    h4 4 9 _ _ hdirect hrapid⟩

end CallImpact
