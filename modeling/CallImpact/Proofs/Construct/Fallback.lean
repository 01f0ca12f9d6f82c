import CallImpact.Proofs.Build
import CallImpact.Proofs.Construct.TypeFlow
import Mathlib

/-!
# Falling back

What an attempt reports when algorithms fail. The algorithm asked for decides alone when it works
out, and its failure is the one that is kept, whichever algorithm works out in its place
(`constructFrom_of_isFirst`) and however the others fail (`constructFrom_of_fails`). Direct calls
are the last to be tried, and they fail exactly for want of a step for each function
(`fails_direct_iff`); so with cheaper algorithms allowed nothing else makes a build fail for its
algorithm (`fallback_exact`).
-/

namespace CallImpact

/-! ## The order of algorithms -/

/-- The algorithms that are tried after one that failed, in order. -/
def Algorithm.cheaper : Algorithm → List Algorithm
  | .rapid | .typeFlow => [.hierarchy, .direct]
  | .hierarchy => [.direct]
  | .direct => []

namespace Algorithm

/-- An algorithm without a fallback has no cheaper ones. -/
theorem cheaper_of_none {algorithm : Algorithm} (h : algorithm.fallback? = none) :
    algorithm.cheaper = [] := by
  cases algorithm <;> first | rfl | cases h

/-- The cheaper algorithms are the fallback and those cheaper than it. -/
theorem cheaper_of_some {algorithm next : Algorithm} (h : algorithm.fallback? = some next) :
    algorithm.cheaper = next :: next.cheaper := by
  cases algorithm <;> cases h <;> rfl

/-- There are fewer cheaper algorithms than algorithms. -/
theorem length_cheaper_lt (algorithm : Algorithm) :
    algorithm.cheaper.length < Algorithm.all.length := by
  cases algorithm <;> decide

/-- Direct calls are tried last. -/
theorem direct_mem (algorithm : Algorithm) : .direct ∈ algorithm :: algorithm.cheaper := by
  cases algorithm <;> simp [cheaper]

/-- No algorithm is tried again. -/
theorem not_mem_cheaper (algorithm : Algorithm) : algorithm ∉ algorithm.cheaper := by
  cases algorithm <;> simp [cheaper]

end Algorithm

/-! ## The first that works out -/

section
variable (p : Program) (entries : List Nat) (maxSteps : Nat)

/-- Whether the construction by an algorithm fails. -/
def Fails (algorithm : Algorithm) : Prop :=
  ∃ failure, construct p algorithm entries maxSteps = .error failure

/-- Whether an algorithm is the first of some that works out, and finds a resolution. -/
def IsFirst (algorithms : List Algorithm) (algorithm : Algorithm) (r : Resolution) : Prop :=
  ∃ before after, algorithms = before ++ algorithm :: after ∧
    (∀ b ∈ before, Fails p entries maxSteps b) ∧ construct p algorithm entries maxSteps = .ok r

end

section
variable {p : Program} {entries : List Nat} {maxSteps : Nat}

/-- Of no algorithms none is the first that works. -/
theorem not_isFirst_nil {algorithm : Algorithm} {r : Resolution} :
    ¬ IsFirst p entries maxSteps [] algorithm r := by
  rintro ⟨before, after, heq, -⟩
  cases before <;> cases heq

/-- The first algorithm that works is the next one, or the first of the rest when the next one
fails. -/
theorem isFirst_cons_iff {algorithm next : Algorithm} {rest : List Algorithm} {r : Resolution} :
    IsFirst p entries maxSteps (next :: rest) algorithm r ↔
      (algorithm = next ∧ construct p next entries maxSteps = .ok r) ∨
        (Fails p entries maxSteps next ∧ IsFirst p entries maxSteps rest algorithm r) := by
  constructor
  · rintro ⟨before, after, heq, hbefore, hr⟩
    cases before with
    | nil =>
      obtain ⟨rfl, rfl⟩ := List.cons.inj heq
      exact .inl ⟨rfl, hr⟩
    | cons b before =>
      obtain ⟨rfl, rfl⟩ := List.cons.inj heq
      obtain ⟨hfails, hbefore⟩ := List.forall_mem_cons.mp hbefore
      exact .inr ⟨hfails, before, after, rfl, hbefore, hr⟩
  · rintro (⟨rfl, hr⟩ | ⟨hfails, before, after, rfl, hbefore, hr⟩)
    · exact ⟨[], rest, rfl, by simp, hr⟩
    · exact ⟨next :: before, after, rfl, List.forall_mem_cons.mpr ⟨hfails, hbefore⟩, hr⟩

/-- Of some algorithms one is the first that works out, or all fail. -/
theorem exists_isFirst_or_fails (p : Program) (entries : List Nat) (maxSteps : Nat)
    (algorithms : List Algorithm) :
    (∃ algorithm r, IsFirst p entries maxSteps algorithms algorithm r) ∨
      ∀ b ∈ algorithms, Fails p entries maxSteps b := by
  induction algorithms with
  | nil => exact .inr (by simp)
  | cons next rest ih =>
    cases hnext : construct p next entries maxSteps with
    | ok r => exact .inl ⟨next, r, isFirst_cons_iff.mpr (.inl ⟨rfl, hnext⟩)⟩
    | error failure =>
      have hfails : Fails p entries maxSteps next := ⟨failure, hnext⟩
      rcases ih with ⟨algorithm, r, hfirst⟩ | hall
      · exact .inl ⟨algorithm, r, isFirst_cons_iff.mpr (.inr ⟨hfails, hfirst⟩)⟩
      · exact .inr (List.forall_mem_cons.mpr ⟨hfails, hall⟩)

/-! ## Attempts -/

/-- An attempt that may go on gives what the first algorithm that works out finds, and keeps the
failure that it started from. -/
theorem constructFrom_of_isFirst {more : Nat} {algorithm actual : Algorithm} {r : Resolution}
    (hmore : algorithm.cheaper.length ≤ more) (first : Failure)
    (h : IsFirst p entries maxSteps (algorithm :: algorithm.cheaper) actual r) :
    constructFrom p entries maxSteps true more algorithm (some first) =
      .ok { algorithm := actual, resolution := r, failure := some first } := by
  induction more generalizing algorithm with
  | zero =>
    rcases isFirst_cons_iff.mp h with ⟨rfl, hr⟩ | ⟨-, hrest⟩
    · rw [constructFrom, hr]
    · rw [List.length_eq_zero_iff.mp (Nat.le_zero.mp hmore)] at hrest
      exact absurd hrest not_isFirst_nil
  | succ more ih =>
    rcases isFirst_cons_iff.mp h with ⟨rfl, hr⟩ | ⟨⟨failure, hfails⟩, hrest⟩
    · rw [constructFrom, hr]
    · rw [constructFrom, hfails]
      cases hnext : algorithm.fallback? with
      | none =>
        rw [Algorithm.cheaper_of_none hnext] at hrest
        exact absurd hrest not_isFirst_nil
      | some next =>
        rw [Algorithm.cheaper_of_some hnext] at hmore hrest
        exact ih (Nat.le_of_succ_le_succ hmore) hrest

/-- When all algorithms fail, the failure that an attempt started from is the one it reports. -/
theorem constructFrom_of_fails {more : Nat} {algorithm : Algorithm} (first : Failure)
    (h : ∀ b ∈ algorithm :: algorithm.cheaper, Fails p entries maxSteps b) :
    constructFrom p entries maxSteps true more algorithm (some first) = .error first := by
  induction more generalizing algorithm with
  | zero =>
    obtain ⟨failure, hfails⟩ := h algorithm List.mem_cons_self
    rw [constructFrom, hfails]
    rfl
  | succ more ih =>
    obtain ⟨⟨failure, hfails⟩, hrest⟩ := List.forall_mem_cons.mp h
    rw [constructFrom, hfails]
    cases hnext : algorithm.fallback? with
    | none => rfl
    | some next =>
      rw [Algorithm.cheaper_of_some hnext] at hrest
      exact ih hrest

section
variable {requested : Algorithm} {failure : Failure}

/-- The algorithm asked for decides alone when it works out. -/
theorem constructWithFallback_of_ok {r : Resolution} (allowFallback : Bool)
    (h : construct p requested entries maxSteps = .ok r) :
    constructWithFallback p requested entries maxSteps allowFallback =
      .ok { algorithm := requested, resolution := r, failure := none } := by
  rw [constructWithFallback, constructFrom, h]

/-- Once the algorithm asked for has failed, an attempt goes on from that failure where it may. -/
theorem constructWithFallback_of_error (allowFallback : Bool)
    (h : construct p requested entries maxSteps = .error failure) :
    constructWithFallback p requested entries maxSteps allowFallback =
      match allowFallback, requested.fallback? with
      | true, some next => constructFrom p entries maxSteps true 3 next (some failure)
      | _, _ => .error failure := by
  rw [constructWithFallback, constructFrom, h]
  cases requested.fallback? <;> cases allowFallback <;> rfl

/-- With cheaper algorithms allowed, the first of them that works out takes the place of the one
asked for, whose failure is kept. -/
theorem constructWithFallback_of_isFirst {actual : Algorithm} {r : Resolution}
    (h : construct p requested entries maxSteps = .error failure)
    (hfirst : IsFirst p entries maxSteps requested.cheaper actual r) :
    constructWithFallback p requested entries maxSteps true =
      .ok { algorithm := actual, resolution := r, failure := some failure } := by
  rw [constructWithFallback_of_error true h]
  cases hnext : requested.fallback? with
  | none =>
    rw [Algorithm.cheaper_of_none hnext] at hfirst
    exact absurd hfirst not_isFirst_nil
  | some next =>
    rw [Algorithm.cheaper_of_some hnext] at hfirst
    exact constructFrom_of_isFirst (Nat.le_of_lt_succ next.length_cheaper_lt) failure hfirst

/-- Where no cheaper algorithm is allowed or all fail, the failure of the one asked for is
reported. -/
theorem constructWithFallback_of_fails {allowFallback : Bool}
    (h : construct p requested entries maxSteps = .error failure)
    (hcheaper : allowFallback = true → ∀ b ∈ requested.cheaper, Fails p entries maxSteps b) :
    constructWithFallback p requested entries maxSteps allowFallback = .error failure := by
  rw [constructWithFallback_of_error allowFallback h]
  cases allowFallback with
  | false => rfl
  | true =>
    cases hnext : requested.fallback? with
    | none => rfl
    | some next =>
      have hall := hcheaper rfl
      rw [Algorithm.cheaper_of_some hnext] at hall
      exact constructFrom_of_fails failure hall

end

/-! ## Direct calls -/

/-- Direct calls fail exactly when there are more functions than steps. -/
theorem fails_direct_iff : Fails p entries maxSteps .direct ↔ maxSteps < p.size := by
  obtain ⟨r, hcosts⟩ : ∃ r, Costs (buildDirect p) p.size r := ⟨_, buildDirect_costs p⟩
  have hrun : (construction p entries .direct).run maxSteps =
      if maxSteps < p.size then .error .outOfSteps else .ok r := by
    rw [construction, Budgeted.run, hcosts]
    split
    · rfl
    · rfl
  rw [Fails, construct, hrun]
  by_cases hlt : maxSteps < p.size
  · rw [if_pos hlt]
    exact iff_of_true ⟨_, rfl⟩ hlt
  · rw [if_neg hlt]
    exact iff_of_false (by rintro ⟨failure, ⟨⟩⟩) hlt

/-! ## What attempts tell -/

section
variable {requested : Algorithm} {allowFallback : Bool}

/-- An attempt that fails reports the failure of the algorithm asked for, and all that it was
allowed to try has failed. -/
theorem fails_of_constructWithFallback {failure : Failure}
    (h : constructWithFallback p requested entries maxSteps allowFallback = .error failure) :
    construct p requested entries maxSteps = .error failure ∧
      (allowFallback = true → ∀ b ∈ requested.cheaper, Fails p entries maxSteps b) := by
  cases hc : construct p requested entries maxSteps with
  | ok r =>
    rw [constructWithFallback_of_ok allowFallback hc] at h
    cases h
  | error own =>
    have hcheaper : allowFallback = true → ∀ b ∈ requested.cheaper, Fails p entries maxSteps b := by
      rintro rfl
      refine (exists_isFirst_or_fails p entries maxSteps requested.cheaper).resolve_left ?_
      rintro ⟨actual, r, hfirst⟩
      rw [constructWithFallback_of_isFirst hc hfirst] at h
      cases h
    rw [constructWithFallback_of_fails hc hcheaper] at h
    cases h
    exact ⟨rfl, hcheaper⟩

/-- An attempt that works out keeps no failure but that of the algorithm asked for, and it keeps one
exactly where another algorithm has taken its place. -/
theorem failure_of_constructWithFallback {a : Attempted}
    (h : constructWithFallback p requested entries maxSteps allowFallback = .ok a) :
    (a.failure = none ↔ a.algorithm = requested) ∧
      ∀ failure ∈ a.failure, construct p requested entries maxSteps = .error failure := by
  cases hc : construct p requested entries maxSteps with
  | ok r =>
    rw [constructWithFallback_of_ok allowFallback hc] at h
    cases h
    simp
  | error failure =>
    by_cases hcheaper : allowFallback = true → ∀ b ∈ requested.cheaper, Fails p entries maxSteps b
    · rw [constructWithFallback_of_fails hc hcheaper] at h
      cases h
    · obtain ⟨rfl, hsome⟩ := Classical.not_imp.mp hcheaper
      obtain ⟨actual, r, hfirst⟩ :=
        (exists_isFirst_or_fails p entries maxSteps requested.cheaper).resolve_right hsome
      rw [constructWithFallback_of_isFirst hc hfirst] at h
      cases h
      obtain ⟨before, after, heq, -⟩ := hfirst
      have hmem : actual ∈ requested.cheaper := by simp [heq]
      have hne : actual ≠ requested := fun he => requested.not_mem_cheaper (he ▸ hmem)
      simp [hne]

end

end

/-! ## Builds -/

namespace Program

variable {p : Program} {options : BuildOptions}

/-- What a build that works out reports of the algorithms. -/
theorem reports_of_build {g : BuiltGraph} (h : p.build options = .ok g) :
    g.requested = options.algorithm ∧ (g.fallback = true ↔ g.actual ≠ g.requested) ∧
      g.fallback = g.fallbackReason.isSome ∧
      ∀ reason ∈ g.fallbackReason, ∃ failure, construct p g.requested
        (resolveEntries p options.entries) options.maxSteps = .error failure ∧
          reason = failure.message := by
  unfold build at h
  cases ha : constructWithFallback p options.algorithm (resolveEntries p options.entries)
    options.maxSteps options.allowFallback with
  | error failure =>
    rw [ha] at h
    cases h
  | ok a =>
    rw [ha] at h
    cases h
    obtain ⟨hnone, hown⟩ := failure_of_constructWithFallback ha
    refine ⟨rfl, ?_, (Option.isSome_map ..).symm, fun reason hreason => ?_⟩
    · rw [← not_iff_not, ne_eq, not_not]
      refine Iff.trans ?_ hnone
      rw [Bool.not_eq_true]
      exact Option.isSome_eq_false_iff.trans Option.isNone_iff_eq_none
    · obtain ⟨failure, hfailure, rfl⟩ := Option.map_eq_some_iff.mp hreason
      exact ⟨failure, hown failure hfailure, rfl⟩

/-- A build that fails reports the failure of the algorithm asked for; with cheaper algorithms
allowed it fails only when there are more functions than steps. -/
theorem fails_of_build {failure : Failure} (h : p.build options = .error failure) :
    construct p options.algorithm (resolveEntries p options.entries) options.maxSteps =
        .error failure ∧
      (options.allowFallback = true → options.maxSteps < p.size) := by
  unfold build at h
  cases ha : constructWithFallback p options.algorithm (resolveEntries p options.entries)
    options.maxSteps options.allowFallback with
  | ok a =>
    rw [ha] at h
    cases h
  | error own =>
    rw [ha] at h
    cases h
    obtain ⟨hown, hcheaper⟩ := fails_of_constructWithFallback ha
    refine ⟨hown, fun hallow => ?_⟩
    have hall : ∀ b ∈ options.algorithm :: options.algorithm.cheaper,
        Fails p (resolveEntries p options.entries) options.maxSteps b :=
      List.forall_mem_cons.mpr ⟨⟨failure, hown⟩, hcheaper hallow⟩
    exact fails_direct_iff.mp (hall _ options.algorithm.direct_mem)

end Program

/-- A module that cannot be opened is no failure of an algorithm. -/
theorem openModule_ne_algorithm {shown : String} {root : Option (FileTree Content)}
    {failure : Failure} : openModule shown root ≠ .error (.algorithm failure) := by
  intro h
  unfold openModule at h
  split at h
  · split at h
    · cases h
    · split at h
      · split at h
        · cases h
        · cases h
      · cases h
  · cases h

/-- A build of a module that fails for its algorithm is a build of a program that was loaded. -/
theorem buildGraph_algorithm {shown : String} {root : Option (FileTree Content)}
    {options : BuildOptions} {failure : Failure}
    (h : (buildGraph shown root options).2 = .error (.algorithm failure)) :
    ∃ p, loadProgram shown root options.exclude = .ok p ∧ p.build options = .error failure := by
  unfold buildGraph at h
  cases hp : loadProgram shown root options.exclude with
  | error e =>
    rw [hp] at h
    cases h
    unfold loadProgram at hp
    cases hopen : openModule shown root with
    | error e =>
      rw [hopen] at hp
      cases hp
      exact absurd hopen openModule_ne_algorithm
    | ok opened =>
      rw [hopen] at hp
      cases hp
  | ok p =>
    rw [hp] at h
    dsimp only at h
    split at h
    · rename_i own hown
      cases h
      exact ⟨p, rfl, hown⟩
    · cases h

/-- Whatever the program, the entries and the number of steps: an attempt gives what the algorithm
asked for finds, and no failure, when that works out; when it fails and cheaper algorithms are
allowed, what the first of them that works out finds, with the failure of the one asked for; and
else it fails with this failure, however the others failed. So a graph is marked as that of another
algorithm exactly when it is, with the message of the one asked for as the reason; and with cheaper
algorithms allowed a build fails for its algorithm only when there are more functions than steps. -/
theorem fallback_exact (p : Program) (requested : Algorithm) (entries : List Nat) (maxSteps : Nat)
    (allowFallback : Bool) :
    (∀ r, construct p requested entries maxSteps = .ok r →
      constructWithFallback p requested entries maxSteps allowFallback =
        .ok { algorithm := requested, resolution := r, failure := none }) ∧
    (∀ failure, construct p requested entries maxSteps = .error failure →
      (∀ actual r, allowFallback = true → IsFirst p entries maxSteps requested.cheaper actual r →
        constructWithFallback p requested entries maxSteps allowFallback =
          .ok { algorithm := actual, resolution := r, failure := some failure }) ∧
      ((allowFallback = true → ∀ b ∈ requested.cheaper, Fails p entries maxSteps b) →
        constructWithFallback p requested entries maxSteps allowFallback = .error failure)) ∧
    ∀ shown root options,
      match (buildGraph shown root options).2 with
      | .ok g => g.requested = options.algorithm ∧ (g.fallback = true ↔ g.actual ≠ g.requested) ∧
          g.fallback = g.fallbackReason.isSome ∧
          ∃ loaded, loadProgram shown root options.exclude = .ok loaded ∧
            ∀ reason ∈ g.fallbackReason, ∃ failure, construct loaded g.requested
              (resolveEntries loaded options.entries) options.maxSteps = .error failure ∧
                reason = failure.message
      | .error (.algorithm failure) =>
          ∃ loaded, loadProgram shown root options.exclude = .ok loaded ∧
            construct loaded options.algorithm (resolveEntries loaded options.entries)
              options.maxSteps = .error failure ∧
            (options.allowFallback = true → options.maxSteps < loaded.size)
      | .error _ => True := by
  refine ⟨fun r hr => constructWithFallback_of_ok allowFallback hr,
    fun failure hfailure => ⟨?_, ?_⟩, fun shown root options => ?_⟩
  · rintro actual r rfl hfirst
    exact constructWithFallback_of_isFirst hfailure hfirst
  · exact constructWithFallback_of_fails hfailure
  · split
    · rename_i g hg
      obtain ⟨loaded, hloaded, hbuild⟩ := buildGraph_ok (Prod.ext rfl hg)
      obtain ⟨hrequested, hfallback, hreason, hown⟩ := Program.reports_of_build hbuild
      exact ⟨hrequested, hfallback, hreason, loaded, hloaded, hown⟩
    · rename_i failure hfailure
      obtain ⟨loaded, hloaded, hbuild⟩ := buildGraph_algorithm hfailure
      exact ⟨loaded, hloaded, Program.fails_of_build hbuild⟩
    · trivial

/-- A function that calls itself twice, where nothing starts the program. -/
def selfCalling : Program :=
  { modulePath := "m"
    functions := [{ package := "m", packageName := "m", file := "x.go"
                    decl := { name := "f", lineStart := 1, lineEnd := 4
                              body := { calls := [⟨2, .ident "f", []⟩, ⟨3, .ident "f", []⟩] } } }]
    types := [] }

/-- One step is enough for direct calls only, and none for nothing; rapid type analysis has no entry
point either way, and that is what is reported. -/
theorem fallback_exact_selfCalling :
    construct selfCalling .rapid [] 1 = .error ⟨.rapid, .noEntryPoint⟩ ∧
    construct selfCalling .hierarchy [] 1 = .error ⟨.hierarchy, .outOfSteps⟩ ∧
    constructWithFallback selfCalling .rapid [] 1 true =
      .ok ⟨.direct, { edges := [⟨0, 0, 0⟩, ⟨0, 1, 0⟩] }, some ⟨.rapid, .noEntryPoint⟩⟩ ∧
    construct selfCalling .direct [] 0 = .error ⟨.direct, .outOfSteps⟩ ∧
    constructWithFallback selfCalling .rapid [] 0 true = .error ⟨.rapid, .noEntryPoint⟩ := by
  have hrapid : ∀ maxSteps, construct selfCalling .rapid [] maxSteps =
      .error ⟨.rapid, .noEntryPoint⟩ := fun _ => rfl
  have hhierarchy : ∀ maxSteps, maxSteps < 2 → construct selfCalling .hierarchy [] maxSteps =
      .error ⟨.hierarchy, .outOfSteps⟩ := by
    intro maxSteps hlt
    interval_cases maxSteps <;> cbv
  have hdirect : construct selfCalling .direct [] 1 =
      .ok { edges := [⟨0, 0, 0⟩, ⟨0, 1, 0⟩] } := by cbv
  have hnone : construct selfCalling .direct [] 0 = .error ⟨.direct, .outOfSteps⟩ := by cbv
  have hfirst : IsFirst selfCalling [] 1 [.hierarchy, .direct] .direct _ :=
    ⟨[.hierarchy], [], rfl, List.forall_mem_singleton.mpr ⟨_, hhierarchy 1 (by decide)⟩, hdirect⟩
  have hall : ∀ b ∈ [Algorithm.hierarchy, .direct], Fails selfCalling [] 0 b :=
    List.forall_mem_cons.mpr ⟨⟨_, hhierarchy 0 (by decide)⟩,
      List.forall_mem_singleton.mpr ⟨_, hnone⟩⟩
  exact ⟨hrapid 1, hhierarchy 1 (by decide),
    ((fallback_exact selfCalling .rapid [] 1 true).2.1 _ (hrapid 1)).1 _ _ rfl hfirst, hnone,
    ((fallback_exact selfCalling .rapid [] 0 true).2.1 _ (hrapid 0)).2 fun _ => hall⟩

end CallImpact
