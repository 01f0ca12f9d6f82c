import CallImpact.Construct
import CallImpact.Proofs.Construct.TypeFlow
import CallImpact.Proofs.Construct.Reach
import Mathlib

/-!
# The budget as a threshold

Rapid type analysis comes to an end by itself. Every function is taken up once, so there is a cost
to taking up all that wait (`Rapid.exists_drain_cost`); and every round but the last finds a
function or an edge that was not known, of which there are finitely many
(`Rapid.exists_rounds_cost`). With that, every construction has a cost, and its budget decides
only whether there is a result, never which (`construct_threshold`).
-/

namespace CallImpact

namespace Rapid

/-! ## What is known -/

/-- How much was found, edges and functions. -/
def known (s : Rapid) : Nat :=
  s.edges.length + s.reachable.length

/-- All functions found wait except those taken up, and no less is known than some number. -/
structure Counted (taken least : Nat) (s : Rapid) : Prop where
  taken : s.reachable.length = s.worklist.length + taken
  least : least ≤ s.known

section
variable {p : Program} {s : Rapid} {taken least : Nat}

/-- An edge adds one to what is known when it is new. -/
theorem known_addEdge (e : Edge) :
    (s.addEdge e).known = s.known + if s.edges.contains e then 0 else 1 := by
  unfold addEdge known
  split
  · rfl
  · rw [List.length_append, List.length_singleton, Nat.add_right_comm]

/-- A function adds one to what is known when it is new. -/
theorem known_reach (f : Nat) :
    (s.reach f).known = s.known + if s.reachable.contains f then 0 else 1 := by
  unfold reach known
  split
  · rfl
  · rename_i hnew
    have hf : f ∉ s.reachable := by simpa using hnew
    rw [length_insertOrdered connected_nat hf, Nat.add_assoc]

/-- Finding a function keeps the count: if it is new, it waits. -/
theorem Counted.reach (h : Counted taken least s) (f : Nat) : Counted taken least (s.reach f) where
  taken := by
    unfold Rapid.reach
    split
    · exact h.taken
    · rename_i hnew
      have hf : f ∉ s.reachable := by simpa using hnew
      have := h.taken
      rw [length_insertOrdered connected_nat hf, List.length_append, List.length_singleton]
      omega
  least := by
    rw [known_reach]
    exact Nat.le_add_right_of_le h.least

/-- An edge adds no functions to the count. -/
theorem Counted.addEdge (h : Counted taken least s) (e : Edge) :
    Counted taken least (s.addEdge e) where
  taken := by
    rw [reachable_addEdge, worklist_addEdge]
    exact h.taken
  least := by
    rw [known_addEdge]
    exact Nat.le_add_right_of_le h.least

/-- Taking up a call keeps the count. -/
theorem Counted.takeCall (h : Counted taken least s) (caller : Nat) (d : Dispatch) (site : Nat) :
    Counted taken least (takeCall caller s d site) := by
  cases d with
  | static callee => exact (h.addEdge _).reach callee
  | interface iface method => exact ⟨h.taken, h.least⟩
  | dynamic method => exact ⟨h.taken, h.least⟩
  | external => exact h

/-- Live types do not matter to the count. -/
theorem Counted.addLives (h : Counted taken least s) (types : List TypeRef) :
    Counted taken least (types.foldl addLive s) :=
  List.foldlRecOn types addLive h fun _ hs _ _ => ⟨hs.taken, hs.least⟩

/-- To take up a function makes one more that waits no longer. -/
theorem Counted.takeUp (h : Counted taken least s) {f : Nat} {rest : List Nat}
    (hw : s.worklist = f :: rest) (function : Function) :
    Counted (taken + 1) least (takeUp p f function { s with worklist := rest }) := by
  have hnext : Counted (taken + 1) least { s with worklist := rest } := by
    refine ⟨?_, h.least⟩
    have htaken := h.taken
    rw [hw, List.length_cons] at htaken
    dsimp only
    omega
  have hlives := (hnext.addLives function.decl.body.allocs).addLives
    (function.decl.body.declared.map (·.2))
  exact List.foldlRecOn (p.dispatches function).zipIdx _ hlives fun _ hs x _ =>
    hs.takeCall f x.1 x.2

/-- Resolving a call for a type keeps the count. -/
theorem Counted.resolveOne {caller site : Nat} {d : Dispatch} {method : String}
    {state : Rapid × Bool} (h : Counted taken least state.1) (t : TypeRef) :
    Counted taken least (resolveOne p caller site d method state t).1 := by
  unfold Rapid.resolveOne
  dsimp only
  split
  · split
    · exact (h.addEdge _).reach _
    · exact h
  · exact h

/-! ## Sound states -/

/-- What holds throughout the analysis of a program when its entries are functions. -/
structure Progress (p : Program) (least : Nat) (s : Rapid) : Prop where
  sound : Sound (· = .outOfSteps) p [] s
  closed : Closed s
  counted : ∃ taken, Counted taken least s

/-- All steps keep what holds throughout the analysis. -/
theorem kept_progress (p : Program) (least : Nat) : Kept p (Progress p least) where
  takeUp := by
    intro s f rest function h hw hf
    obtain ⟨taken, hcounted⟩ := h.counted
    exact ⟨(h.sound.next hw).takeUp hf, (kept_closed p).takeUp h.closed hw hf,
      taken + 1, hcounted.takeUp hw function⟩
  resolveOne := by
    intro s caller site d method grew t h hmem hlive hmethod
    obtain ⟨taken, hcounted⟩ := h.counted
    have hsite : IsSite p caller site d := h.sound.pending _ hmem
    have hclosed : Closed (resolveOne p caller site d method (s, grew) t).1 :=
      (kept_closed p).resolveOne h.closed hmem hlive hmethod
    exact ⟨h.sound.resolveOne hsite hmethod t, hclosed, taken, hcounted.resolveOne t⟩

/-- At first all functions found wait. -/
theorem counted_entries (entries : List Nat) : Counted 0 0 (entries.foldl Rapid.reach {}) :=
  List.foldlRecOn entries Rapid.reach ⟨rfl, Nat.zero_le _⟩ fun _ hs f _ => hs.reach f

/-- The analysis starts from functions of the program. -/
theorem progress_entries {entries : List Nat} (h : ∀ n ∈ entries, n < p.size) :
    Progress p 0 (entries.foldl Rapid.reach {}) :=
  ⟨sound_empty.reachAll (.inl h), closed_empty.reachAll entries, 0, counted_entries entries⟩

/-- The functions that were found are functions of the program. -/
theorem Progress.lt_size (h : Progress p least s) : ∀ c ∈ s.reachable, c < p.size := by
  rcases h.sound.range with hrange | hall
  · exact hrange
  · cases hall 0 0

/-- No more functions are found than there are. -/
theorem Progress.length_reachable (h : Progress p least s) : s.reachable.length ≤ p.size := by
  have hnodup : s.reachable.Nodup := h.closed.increasing.imp Nat.ne_of_lt
  have hsub : s.reachable ⊆ List.range p.size := fun c hc => List.mem_range.mpr (h.lt_size c hc)
  have hle := (List.subperm_of_subset hnodup hsub).length_le
  rwa [List.length_range] at hle

/-- How much there is to be found: the edges of the type hierarchy and the functions. -/
def most (p : Program) : Nat :=
  (edgesOf ((dispatchTable p).map (List.map (hierarchyTargets p)))).length + p.size

/-- What is known has a bound that depends on the program alone. -/
theorem Progress.known_le (h : Progress p least s) : s.known ≤ most p := by
  have hsub : s.edges ⊆ edgesOf ((dispatchTable p).map (List.map (hierarchyTargets p))) :=
    fun e he => mem_edgesOf_dispatchTable.mpr (h.sound.edges e he)
  exact Nat.add_le_add (List.subperm_of_subset h.sound.nodup hsub).length_le h.length_reachable

/-! ## Taking up functions -/

/-- Every function is taken up once, so to take up all that wait costs a step for each. -/
theorem exists_drain_cost (h : Progress p least s) (hcounted : Counted taken least s) :
    ∃ n s', Costs (fun budget => drain p budget s) n s' ∧ Counted (taken + n) least s' ∧
      Progress p least s' ∧ s'.worklist = [] := by
  have hcost : ∀ left taken s, Progress p least s → Counted taken least s →
      p.size - taken = left → ∃ n s', Costs (fun budget => drain p budget s) n s' ∧
        Counted (taken + n) least s' := by
    intro left
    induction left using Nat.strongRecOn with
    | ind left ih =>
      intro taken s h hcounted hleft
      cases hw : s.worklist with
      | nil =>
        obtain ⟨reachable, live, pending, edges, worklist⟩ := s
        obtain rfl : worklist = [] := hw
        exact ⟨0, _, fun budget => by cases budget <;> rfl, hcounted⟩
      | cons f rest =>
        have hf : f < p.functions.length :=
          h.lt_size f (h.closed.waiting f (hw ▸ List.mem_cons_self))
        have hfunction : p.functions[f]? = some p.functions[f] := List.getElem?_eq_getElem hf
        have hnext := (kept_progress p least).takeUp h hw hfunction
        -- a function waits, so not all were taken up
        have hmore : taken < p.size := by
          have htaken := hcounted.taken
          have hlength := h.length_reachable
          rw [hw, List.length_cons] at htaken
          omega
        obtain ⟨n, s', hn, hcounted'⟩ := ih (p.size - (taken + 1)) (by omega) (taken + 1) _ hnext
          (hcounted.takeUp hw _) rfl
        obtain ⟨reachable, live, pending, edges, worklist⟩ := s
        obtain rfl : worklist = f :: rest := hw
        rw [Nat.add_right_comm] at hcounted'
        refine ⟨n + 1, s', hn.step rfl fun budget => ?_, hcounted'⟩
        rw [drain, hfunction]
  obtain ⟨n, s', hn, hcounted'⟩ := hcost _ taken s h hcounted rfl
  have hdrained : Ensures (· = .outOfSteps) (fun budget => drain p budget s) fun s' =>
      Sound (· = .outOfSteps) p [] s' ∧ s'.worklist = [] := drain_ensures rfl h.sound
  exact ⟨n, s', hn, hcounted', hn.ensured ((kept_progress p least).drain h),
    (hn.ensured hdrained).2⟩

/-! ## Resolving dynamic calls -/

/-- A dynamic call costs a step for each type. -/
theorem resolveCall_costs (caller site : Nat) (d : Dispatch) (method : String)
    (types : List TypeRef) (state : Rapid × Bool) :
    Costs (resolveCall p caller site d method types state) types.length
      (types.foldl (resolveOne p caller site d method) state) := by
  induction types generalizing state with
  | nil => exact .pure state
  | cons t types ih =>
    have hcost := Costs.tick.bind (k := fun _ => resolveCall p caller site d method types
      (resolveOne p caller site d method state t)) (ih _)
    rwa [Nat.add_comm] at hcost

/-- How many of some calls are calls of methods. -/
def methodCalls (calls : List (Nat × Nat × Dispatch)) : Nat :=
  calls.countP fun x => x.2.2.method?.isSome

/-- Each dynamic call costs a step for each type, and without a step nothing happens. -/
theorem exists_resolvePending_cost (live : List TypeRef) (pending : List (Nat × Nat × Dispatch))
    (state : Rapid × Bool) : ∃ state',
      Costs (resolvePending p live pending state) (methodCalls pending * live.length) state' ∧
      (methodCalls pending * live.length = 0 → state' = state) := by
  induction pending generalizing state with
  | nil =>
    rw [methodCalls, List.countP_nil, Nat.zero_mul]
    exact ⟨state, .pure state, fun _ => rfl⟩
  | cons x pending ih =>
    obtain ⟨caller, site, d⟩ := x
    unfold resolvePending
    split
    · rename_i method hmethod
      obtain ⟨state', hcost, hzero⟩ := ih (live.foldl (resolveOne p caller site d method) state)
      have hcall := resolveCall_costs (p := p) caller site d method live state
      have hcount : methodCalls ((caller, site, d) :: pending) = methodCalls pending + 1 :=
        List.countP_cons_of_pos (by simp [hmethod])
      rw [hcount, Nat.add_one_mul, Nat.add_comm]
      refine ⟨state', hcall.bind hcost, fun hfree => ?_⟩
      obtain ⟨hlive, hrest⟩ := Nat.add_eq_zero_iff.mp hfree
      rw [hzero hrest, List.length_eq_zero_iff.mp hlive]
      rfl
    · rename_i hnone
      have hcount : methodCalls ((caller, site, d) :: pending) = methodCalls pending :=
        List.countP_cons_of_neg (by simp [hnone])
      rw [hcount]
      exact ih state

/-- Whether more is known than a number as soon as something was found. -/
def Grown (least : Nat) (state : Rapid × Bool) : Prop :=
  least ≤ state.1.known ∧ (state.2 = true → least < state.1.known)

/-- Resolving a call for a type keeps that more is known when something was found. -/
theorem Grown.resolveOne {caller site : Nat} {d : Dispatch} {method : String}
    {state : Rapid × Bool} (h : Grown least state) (t : TypeRef) :
    Grown least (resolveOne p caller site d method state t) := by
  obtain ⟨s, grew⟩ := state
  obtain ⟨hle, hlt⟩ := h
  unfold Rapid.resolveOne
  dsimp only at hle hlt ⊢
  split
  · split
    · rename_i callee _
      have hknown := known_reach (s := s.addEdge ⟨caller, site, callee⟩) callee
      rw [known_addEdge, reachable_addEdge] at hknown
      refine ⟨by dsimp only; omega, fun hgrew => ?_⟩
      rcases Bool.or_eq_true_iff.mp hgrew with hold | hfresh
      · have := hlt hold
        dsimp only
        omega
      -- the edge or the callee is new
      · rcases Bool.or_eq_true_iff.mp hfresh with hedge | hcallee
        · rw [Bool.not_eq_true'] at hedge
          rw [hedge] at hknown
          simp only [Bool.false_eq_true, if_false] at hknown
          dsimp only
          omega
        · rw [Bool.not_eq_true'] at hcallee
          rw [hcallee] at hknown
          simp only [Bool.false_eq_true, if_false] at hknown
          dsimp only
          omega
    · exact ⟨hle, hlt⟩
  · exact ⟨hle, hlt⟩

/-! ## Rounds -/

/-- A round has a cost. One that finds something is not free and makes more known. -/
theorem exists_round_cost (h : Progress p least s) : ∃ n state,
    Costs (do
      let s ← (fun budget => drain p budget s : Budgeted Rapid)
      resolvePending p s.live s.pending (s, false)) n state ∧
    (state.2 = true → n ≠ 0 ∧ least < state.1.known) ∧ Progress p least state.1 := by
  obtain ⟨taken, hcounted⟩ := h.counted
  obtain ⟨n, drained, hdrain, hcounted, hprogress, -⟩ := exists_drain_cost h hcounted
  obtain ⟨state, hresolve, hzero⟩ :=
    exists_resolvePending_cost (p := p) drained.live drained.pending (drained, false)
  have hstart : Grown least (drained, false) := ⟨hcounted.least, fun hgrew => by cases hgrew⟩
  have hkeeps : Ensures (fun _ => True)
      (resolvePending p drained.live drained.pending (drained, false)) (Grown least) :=
    resolvePending_keeps trivial (fun x _ method _ state t _ hstate => hstate.resolveOne t) hstart
  have hgrown : Grown least state := hresolve.ensured hkeeps
  refine ⟨n + _, state, hdrain.bind hresolve, fun hgrew => ⟨fun hfree => ?_, hgrown.2 hgrew⟩,
    hresolve.ensured ((kept_progress p least).resolvePending false hprogress)⟩
  rw [hzero (Nat.add_eq_zero_iff.mp hfree).2] at hgrew
  cases hgrew

/-- Rounds have a cost when they are not bounded more tightly than steps are. -/
theorem exists_rounds_cost (h : Progress p least s) : ∃ n s', ∀ bound budget, budget < bound →
    rounds p bound s budget = if budget < n then .error .outOfSteps else .ok (s', budget - n) := by
  -- more becomes known with each round, and there is only so much to be found
  induction hleft : most p - least using Nat.strongRecOn generalizing least s with
  | ind left ih =>
    obtain ⟨n, ⟨s₁, grew⟩, hround, hgrew, hprogress⟩ := exists_round_cost h
    have hunfold : ∀ bound, rounds p (bound + 1) s = (do
        let s ← (fun budget => drain p budget s : Budgeted Rapid)
        resolvePending p s.live s.pending (s, false)) >>= fun state =>
          if state.2 then rounds p bound state.1 else return state.1 := fun bound => by
      rw [rounds, bind_assoc]
    cases grew with
    | false =>
      refine ⟨n, s₁, fun bound budget hbound => ?_⟩
      obtain ⟨bound, rfl⟩ := Nat.exists_eq_add_one_of_ne_zero (Nat.ne_zero_of_lt hbound)
      rw [hunfold, hround.bind_apply]
      rfl
    | true =>
      obtain ⟨hn, hmore⟩ := hgrew rfl
      have hknown := hprogress.known_le
      obtain ⟨taken, hcounted⟩ := hprogress.counted
      have hnext : Progress p s₁.known s₁ :=
        ⟨hprogress.sound, hprogress.closed, taken, hcounted.taken, Nat.le_refl _⟩
      obtain ⟨m, s₂, hrest⟩ := ih (most p - s₁.known) (by dsimp only at *; omega) hnext rfl
      refine ⟨n + m, s₂, fun bound budget hbound => ?_⟩
      obtain ⟨bound, rfl⟩ := Nat.exists_eq_add_one_of_ne_zero (Nat.ne_zero_of_lt hbound)
      rw [hunfold, hround.bind_apply]
      by_cases hlt : budget < n
      · rw [if_pos hlt, if_pos (Nat.lt_of_lt_of_le hlt (Nat.le_add_right n m))]
      · rw [if_neg hlt]
        -- the round took a step, so the others have a round for each step that is left
        have hrounds := hrest bound (budget - n) (by omega)
        have hiff : budget - n < m ↔ budget < n + m := by omega
        simpa only [hiff, Nat.sub_sub, if_true] using hrounds

end

end Rapid

/-- Rapid type analysis gives what the rounds find. There is a round for each step, and one more. -/
theorem buildRapid_eq {p : Program} {entries : List Nat} (h : entries ≠ []) :
    buildRapid p entries =
      ((fun budget =>
        Rapid.rounds p (budget + 1) (entries.foldl Rapid.reach {}) budget) >>= fun s =>
        pure { edges := s.edges.mergeSort Edge.le, reachable := some s.reachable } :
        Budgeted Resolution) := by
  cases entries with
  | nil => exact absurd rfl h
  | cons f entries => rfl

/-- Rapid type analysis has a cost when it starts from functions of the program. -/
theorem buildRapid_costs {p : Program} {entries : List Nat} (hentries : entries ≠ [])
    (h : ∀ n ∈ entries, n < p.size) : ∃ n r, Costs (buildRapid p entries) n r := by
  obtain ⟨n, s, hrounds⟩ := Rapid.exists_rounds_cost (Rapid.progress_entries h)
  have hcost : Costs
      (fun budget => Rapid.rounds p (budget + 1) (entries.foldl Rapid.reach {}) budget)
      n s := fun budget => hrounds (budget + 1) budget (Nat.lt_succ_self budget)
  rw [buildRapid_eq hentries]
  exact ⟨n, _, hcost.bind_pure⟩

/-! ## All constructions -/

/-- Whether an algorithm can be used on a program: rapid type analysis needs functions to start
from, and type flow facts that refer to calls that there are. -/
def Algorithm.Accepts (p : Program) (entries : List Nat) : Algorithm → Prop
  | .direct | .hierarchy => True
  | .rapid => entries ≠ [] ∧ ∀ n ∈ entries, n < p.size
  | .typeFlow => ∀ f ∈ p.functions, f.decl.body.RefersToCalls

/-- A construction that costs some steps runs out of fewer and works out with as many. -/
theorem construct_of_costs {p : Program} {algorithm : Algorithm} {entries : List Nat} {n : Nat}
    {r : Resolution} (h : Costs (construction p entries algorithm) n r) (maxSteps : Nat) :
    construct p algorithm entries maxSteps =
      if maxSteps < n then .error ⟨algorithm, .outOfSteps⟩ else .ok r := by
  rw [construct, Budgeted.run, h]
  by_cases hlt : maxSteps < n
  · rw [if_pos hlt, if_pos hlt]
    rfl
  · rw [if_neg hlt, if_neg hlt]
    rfl

/-- The budget is a threshold: below some number of steps a construction runs out of them, and from
there on it succeeds, always with the same result. The number is that of the functions for direct
calls, and that of the calls for the type hierarchy. -/
theorem construct_threshold (p : Program) (algorithm : Algorithm) (entries : List Nat)
    (h : algorithm.Accepts p entries) :
    ∃ threshold r,
      (∀ maxSteps < threshold,
        construct p algorithm entries maxSteps = .error ⟨algorithm, .outOfSteps⟩) ∧
      (∀ maxSteps ≥ threshold, construct p algorithm entries maxSteps = .ok r) ∧
      (algorithm = .direct → threshold = p.size) ∧
      (algorithm = .hierarchy →
        threshold = (p.functions.map fun f => f.decl.body.calls.length).sum) := by
  have hcost : ∃ n r, Costs (construction p entries algorithm) n r ∧
      (algorithm = .direct → n = p.size) ∧
      (algorithm = .hierarchy → n = (p.functions.map fun f => f.decl.body.calls.length).sum) := by
    cases algorithm with
    | direct => exact ⟨p.size, _, buildDirect_costs p, fun _ => rfl, nofun⟩
    | hierarchy => exact ⟨_, _, buildHierarchy_costs p, nofun, fun _ => rfl⟩
    | rapid =>
      obtain ⟨n, r, hr⟩ := buildRapid_costs h.1 h.2
      exact ⟨n, r, hr, nofun, nofun⟩
    | typeFlow =>
      obtain ⟨n, r, hr⟩ := buildTypeFlow_costs h
      exact ⟨n, r, hr, nofun, nofun⟩
  obtain ⟨n, r, hr, hdirect, hhierarchy⟩ := hcost
  refine ⟨n, r, fun maxSteps hlt => ?_, fun maxSteps hle => ?_, hdirect, hhierarchy⟩
  · rw [construct_of_costs hr, if_pos hlt]
  · rw [construct_of_costs hr, if_neg (Nat.not_lt.mpr hle)]

/-- A type answers a call and gives a value of another type, which answers the call as well. -/
def relay : Program :=
  let function (decl : FuncDecl) : Function :=
    { package := "m", packageName := "main", file := "a.go", decl }
  { modulePath := "m"
    functions := [
      function
        { name := "main"
          params := [⟨some "s", some ⟨"m", "Speaker"⟩⟩]
          body :=
            { calls := [⟨4, .method (.var "s") "Speak", []⟩]
              assigns := [("s", .alloc ⟨"m", "Dog"⟩), ("s", .result 0)]
              allocs := [⟨"m", "Dog"⟩] } },
      function
        { name := "Speak", receiver := some ⟨none, "Dog", false⟩
          body := { returns := [.alloc ⟨"m", "Cat"⟩], allocs := [⟨"m", "Cat"⟩] } },
      function { name := "Speak", receiver := some ⟨none, "Cat", false⟩ }]
    types := [(⟨"m", "Speaker"⟩, .interface ["Speak"] []), (⟨"m", "Dog"⟩, .other),
      (⟨"m", "Cat"⟩, .other)] }

/-- The facts of this program refer to calls that there are. -/
theorem refersToCalls_relay : ∀ f ∈ relay.functions, f.decl.body.RefersToCalls := by
  intro f hf
  simp only [relay, List.mem_cons, List.not_mem_nil, or_false] at hf
  rcases hf with rfl | rfl | rfl
  · exact ⟨by simp [BodyFacts.values, Expr.Below], by simp [CallSite.values, Expr.Below]⟩
  · exact ⟨by simp [BodyFacts.values, Expr.Below], by simp⟩
  · exact ⟨by simp [BodyFacts.values], by simp⟩

/-- The case of a type that answers a call and brings another that answers it as well: eight steps
are just enough. -/
theorem construct_threshold_relay :
    (∀ maxSteps < 8, construct relay .rapid [0] maxSteps = .error ⟨.rapid, .outOfSteps⟩) ∧
    (∀ maxSteps ≥ 8, construct relay .rapid [0] maxSteps =
      .ok { edges := [⟨0, 0, 1⟩, ⟨0, 0, 2⟩], reachable := some [0, 1, 2] }) ∧
    (∀ maxSteps < 6, construct relay .typeFlow [] maxSteps = .error ⟨.typeFlow, .outOfSteps⟩) ∧
    (∀ maxSteps ≥ 6, construct relay .typeFlow [] maxSteps =
      .ok { edges := [⟨0, 0, 1⟩, ⟨0, 0, 2⟩] }) := by
  -- the last run that fails and the first that succeeds say where the threshold is
  have hbetween : ∀ algorithm entries n r, algorithm.Accepts relay entries →
      construct relay algorithm entries n = .error ⟨algorithm, .outOfSteps⟩ →
      construct relay algorithm entries (n + 1) = .ok r →
      (∀ maxSteps < n + 1,
        construct relay algorithm entries maxSteps = .error ⟨algorithm, .outOfSteps⟩) ∧
      ∀ maxSteps ≥ n + 1, construct relay algorithm entries maxSteps = .ok r := by
    intro algorithm entries n r haccepts hfails hsucceeds
    obtain ⟨threshold, r', hbelow, habove, -⟩ :=
      construct_threshold relay algorithm entries haccepts
    have hlt : n < threshold := Nat.lt_of_not_le fun hle => by
      rw [habove n hle] at hfails
      cases hfails
    have hle : threshold ≤ n + 1 := Nat.le_of_not_lt fun hlt => by
      rw [hbelow (n + 1) hlt] at hsucceeds
      cases hsucceeds
    obtain rfl : r' = r := Except.ok.inj ((habove (n + 1) hle).symm.trans hsucceeds)
    obtain rfl : threshold = n + 1 := Nat.le_antisymm hle hlt
    exact ⟨hbelow, habove⟩
  have hentries : Algorithm.rapid.Accepts relay [0] := ⟨by simp, by simp [Program.size, relay]⟩
  obtain ⟨hrapid, hrapid'⟩ := hbetween .rapid [0] 7
    { edges := [⟨0, 0, 1⟩, ⟨0, 0, 2⟩], reachable := some [0, 1, 2] } hentries (by cbv) (by cbv)
  obtain ⟨hflow, hflow'⟩ := hbetween .typeFlow [] 5 { edges := [⟨0, 0, 1⟩, ⟨0, 0, 2⟩] }
    refersToCalls_relay (by cbv) (by cbv)
  exact ⟨hrapid, hrapid', hflow, hflow'⟩

end CallImpact
