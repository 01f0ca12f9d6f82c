import CallImpact.Proofs.Construct.Outcome
import CallImpact.Proofs.Construct.Threshold

/-!
# What the type hierarchy finds

By the type hierarchy a call reaches what it calls directly, or the methods of all concrete types
that can stand behind its receiver (`Reaches`). With a step for each call the construction gives
exactly the edges to these, in order and none twice, and what the lookups remember from other calls
never shows in their answers (`hierarchy_exact`).
-/

namespace CallImpact

/-- What a call reaches by the type hierarchy. A call of something outside the module reaches
nothing. -/
inductive Reaches (p : Program) : Dispatch → Nat → Prop where
  | static (callee : Nat) : Reaches p (.static callee) callee
  | interface {iface t : TypeRef} {method : String} {n : Nat} (concrete : p.isConcrete t)
      (answers : p.implements t iface) (found : p.lookupMethod? t method = some n) :
      Reaches p (.interface iface method) n
  | dynamic {t : TypeRef} {method : String} {n : Nat} (concrete : p.isConcrete t)
      (answers : p.hasMethod t method) (found : p.lookupMethod? t method = some n) :
      Reaches p (.dynamic method) n

section
variable {p : Program}

/-- The targets of a call by the type hierarchy are what it reaches. -/
theorem mem_hierarchyTargets_iff {d : Dispatch} {n : Nat} :
    n ∈ hierarchyTargets p d ↔ Reaches p d n := by
  cases d with
  | static callee =>
    rw [hierarchyTargets, List.mem_singleton]
    constructor
    · rintro rfl
      exact .static n
    · rintro ⟨⟩
      rfl
  | external => exact iff_of_false List.not_mem_nil (by rintro ⟨⟩)
  | interface iface method =>
    rw [mem_hierarchyTargets rfl]
    constructor
    · rintro ⟨t, hadmits, hn⟩
      exact .interface (isConcrete_of_admits hadmits) hadmits hn
    · rintro ⟨⟩
      rename_i t _ hanswers hn
      exact ⟨t, hanswers, hn⟩
  | dynamic method =>
    rw [mem_hierarchyTargets rfl]
    constructor
    · rintro ⟨t, hadmits, hn⟩
      exact .dynamic (isConcrete_of_admits hadmits) hadmits hn
    · rintro ⟨⟩
      rename_i t _ hanswers hn
      exact ⟨t, hanswers, hn⟩

/-- Whatever was asked before, a lookup finds what it finds with nothing remembered. -/
theorem Hierarchy.targets_after (p : Program) (asked : List Dispatch) (d : Dispatch) :
    (targets p d (targetsAll p asked {}).2).1 = (targets p d {}).1 := by
  have hasked := (targetsAll_spec (faithful_empty p) asked).2
  rw [(targets_spec hasked d).1, (targets_spec (faithful_empty p) d).1]

/-- With a step for each call, the construction by the type hierarchy gives the edges to all that
the calls reach and no others, in order and none twice. The targets of a call are what it reaches,
no matter which calls were looked up before. -/
theorem hierarchy_exact (p : Program) (entries : List Nat) {maxSteps : Nat}
    (h : (p.functions.map fun f => f.decl.body.calls.length).sum ≤ maxSteps) :
    (∃ r, construct p .hierarchy entries maxSteps = .ok r ∧ r.reachable = none ∧
      r.edges.Pairwise Edge.Lt ∧ r.edges.Nodup ∧
      ∀ e, e ∈ r.edges ↔ ∃ d, IsSite p e.caller e.site d ∧ Reaches p d e.callee) ∧
    ∀ asked d, (Hierarchy.targets p d (Hierarchy.targetsAll p asked {}).2).1 =
        (Hierarchy.targets p d {}).1 ∧
      ∀ n, n ∈ (Hierarchy.targets p d {}).1 ↔ Reaches p d n := by
  refine ⟨?_, fun asked d => ⟨Hierarchy.targets_after p asked d, fun n => ?_⟩⟩
  · have hcost : Costs (construction p entries .hierarchy)
        (p.functions.map fun f => f.decl.body.calls.length).sum _ := buildHierarchy_costs p
    have hrun := construct_of_costs hcost maxSteps
    rw [if_neg (Nat.not_lt.mpr h)] at hrun
    have hsorted := pairwise_edges hrun
    refine ⟨_, hrun, reachable_of_construct hrun nofun, hsorted, hsorted.nodup, fun e => ?_⟩
    rw [edges_hierarchy hrun, mem_edgesOf_dispatchTable]
    exact exists_congr fun d => and_congr_right fun _ => mem_hierarchyTargets_iff
  · rw [(Hierarchy.targets_spec (Hierarchy.faithful_empty p) d).1, mem_hierarchyTargets_iff]

end

/-- Two types answer calls of a method: through an interface, twice, and on a value of unknown type.
There are a direct call and one of something outside the module as well. -/
def chatter : Program :=
  let function (decl : FuncDecl) : Function :=
    { package := "m", packageName := "main", file := "a.go", decl }
  { modulePath := "m"
    functions := [
      function
        { name := "main"
          params := [⟨some "s", some ⟨"m", "Speaker"⟩⟩]
          body :=
            { calls := [⟨4, .method (.var "s") "Speak", []⟩, ⟨5, .ident "helper", []⟩,
                ⟨6, .method (.var "x") "Speak", []⟩, ⟨7, .qualified "fmt" "Println", []⟩,
                ⟨8, .method (.var "s") "Speak", []⟩] } },
      function { name := "helper" },
      function { name := "Speak", receiver := some ⟨none, "Dog", false⟩ },
      function { name := "Speak", receiver := some ⟨none, "Cat", false⟩ }]
    types := [(⟨"m", "Speaker"⟩, .interface ["Speak"] []), (⟨"m", "Dog"⟩, .other),
      (⟨"m", "Cat"⟩, .other)] }

/-- The second call through the interface reaches both types like the first, and the one outside the
module reaches nothing. -/
theorem hierarchy_exact_chatter :
    (chatter.functions.map fun f => f.decl.body.calls.length).sum ≤ 5 ∧
    ∃ r, construct chatter .hierarchy [] 5 = .ok r ∧ r.edges.Nodup ∧
      (⟨0, 4, 2⟩ : Edge) ∈ r.edges ∧ (⟨0, 4, 3⟩ : Edge) ∈ r.edges ∧
      (⟨0, 2, 3⟩ : Edge) ∈ r.edges ∧ ∀ n, (⟨0, 3, n⟩ : Edge) ∉ r.edges := by
  have hsteps : (chatter.functions.map fun f => f.decl.body.calls.length).sum ≤ 5 := by decide
  obtain ⟨⟨r, hr, -, -, hnodup, hmem⟩, -⟩ := hierarchy_exact chatter [] hsteps
  have hsite : ∀ {site d}, (chatter.dispatches (chatter.functions[0]))[site]? = some d →
      IsSite chatter 0 site d := fun hd => ⟨_, rfl, hd⟩
  refine ⟨hsteps, r, hr, hnodup, ?_, ?_, ?_, fun n hn => ?_⟩
  · exact (hmem _).mpr ⟨.interface ⟨"m", "Speaker"⟩ "Speak", hsite (by decide +kernel),
      .interface (t := ⟨"m", "Dog"⟩) (by cbv) (by cbv) (by cbv)⟩
  · exact (hmem _).mpr ⟨.interface ⟨"m", "Speaker"⟩ "Speak", hsite (by decide +kernel),
      .interface (t := ⟨"m", "Cat"⟩) (by cbv) (by cbv) (by cbv)⟩
  · exact (hmem _).mpr ⟨.dynamic "Speak", hsite (by decide +kernel),
      .dynamic (t := ⟨"m", "Cat"⟩) (by cbv) (by cbv) (by cbv)⟩
  · obtain ⟨d, ⟨f, hf, hd⟩, hreaches⟩ := (hmem _).mp hn
    cases hf
    have hexternal : (chatter.dispatches (chatter.functions[0]))[3]? = some .external := by
      decide +kernel
    obtain rfl : d = .external := Option.some.inj (hd.symm.trans hexternal)
    cases hreaches

end CallImpact
