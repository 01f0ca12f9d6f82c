import CallImpact.Proofs.Construct.Fixpoint
import CallImpact.Proofs.Construct.Threshold

/-!
# Rapid type analysis and the order of its entries

The order in which entries are given decides in which order functions are taken up and edges are
found, and nothing else. One state covers another when it has all that the other has
(`Rapid.Covers`). Taking up all functions that wait leads to the least complete state that covers
the one before (`Rapid.Running.drain`), and resolving the dynamic calls leads to the least state
that answers them (`Rapid.Running.resolve`). So the states of two runs that cover each other do so
after every round. What a round costs depends on the numbers of functions, types and dynamic calls
only, which are those of the other run (`Rapid.Alike.rounds`). With that, lists of the same entries
give the same outcome for every number of steps (`construct_rapid_entries`).
-/

namespace CallImpact

namespace Rapid

/-! ## States that cover others -/

section
variable {p : Program} {types : Set TypeRef} {calls : Set (Nat × Nat × Dispatch)}
  {edges : Set Edge} {found : Set Nat} {s s' t : Rapid}

/-- A state stays covered when all that is added to it is there. -/
theorem Covers.adds (h : Covers t s) (hadds : Adds types calls edges found s s')
    (htypes : ∀ x ∈ types, x ∈ t.live) (hcalls : ∀ x ∈ calls, x ∈ t.pending)
    (hedges : ∀ e ∈ edges, e ∈ t.edges) (hfound : ∀ c ∈ found, c ∈ t.reachable) : Covers t s' where
  live x hx := ((hadds.live x).mp hx).elim (fun hx => h.live hx) (htypes x)
  pending x hx := ((hadds.pending x).mp hx).elim (fun hx => h.pending hx) (hcalls x)
  edges e he := ((hadds.edges e).mp he).elim (fun he => h.edges he) (hedges e)
  reachable c hc := ((hadds.reachable c).mp hc).elim (fun hc => h.reachable hc) (hfound c)

/-- Taking up functions takes nothing back. -/
theorem drain_covers (s : Rapid) :
    Ensures (fun _ => True) (fun budget => drain p budget s) fun s' => Covers s' s := by
  refine drain_keeps (fun h _ hf => ?_) (Covers.refl s)
  exact (adds_takeUp hf _).covers.trans ⟨h.live, h.pending, h.edges, h.reachable⟩

/-- States that cover each other have found the same functions, in the same order. -/
theorem Closed.reachable_eq (h : Closed s) (h' : Closed s') (hcovers : Covers s s')
    (hcovered : Covers s' s) : s.reachable = s'.reachable :=
  h.increasing.eq_of_mem_iff h'.increasing fun _ =>
    ⟨fun hc => hcovered.reachable hc, fun hc => hcovers.reachable hc⟩

/-- Whether all functions found were taken up, and nothing leads out of them. -/
def Complete (p : Program) (t : Rapid) : Prop :=
  Closed t ∧ ∀ c ∈ t.reachable, TakenUp p t c

/-- What taking up functions adds is there in every complete state that covers the start. -/
theorem covers_drain (ht : Complete p t) (hclosed : Closed s) (h : Covers t s) :
    Ensures (fun _ => True) (fun budget => drain p budget s) (Covers t) := by
  have hkept : Ensures (fun _ => True) (fun budget => drain p budget s)
      fun s => Closed s ∧ Covers t s := drain_keeps ?_ ⟨hclosed, h⟩
  · exact hkept.mono fun _ h => h.2
  rintro s f rest function ⟨hclosed, h⟩ hw hf
  have htaken : TakenUp p t f :=
    ht.2 f (h.reachable (hclosed.waiting f (hw ▸ List.mem_cons_self)))
  refine ⟨(kept_closed p).takeUp hclosed hw hf, ?_⟩
  have hrest : Covers t { s with worklist := rest } := ⟨h.live, h.pending, h.edges, h.reachable⟩
  refine hrest.adds (adds_takeUp hf _) (fun x hx => ?_) ?_ ?_ ?_
  · obtain ⟨f', hf', hlive⟩ := htaken.live
    obtain rfl : f' = function := Option.some.inj (hf'.symm.trans hf)
    exact hlive x hx
  · rintro ⟨_, site, d⟩ ⟨rfl, hsite, hd⟩
    exact htaken.pending site d hsite hd
  · rintro ⟨_, site, callee⟩ ⟨rfl, hsite⟩
    exact htaken.edges site callee hsite
  · rintro c ⟨site, hsite⟩
    exact (ht.1.edges _ (htaken.edges site c hsite)).2

/-- What resolving dynamic calls adds is there in every state that covers the start and answers its
own calls. -/
theorem covers_resolvePending (hclosed : Closed t) (ht : Answered p t) (h : Covers t s) :
    Ensures (fun _ => True) (resolvePending p s.live s.pending (s, false)) fun state =>
      Covers t state.1 := by
  refine resolvePending_keeps trivial (fun x hx method hmethod state ty hty hstate => ?_) h
  have hanswer : ∀ callee, admits p x.2.2 ty → p.lookupMethod? ty method = some callee →
      ⟨x.1, x.2.1, callee⟩ ∈ t.edges := fun callee hadmits hcallee =>
    ht x (h.pending hx) method hmethod ty (h.live hty) hadmits callee hcallee
  refine hstate.adds (adds_resolveOne p x.1 x.2.1 x.2.2 method state ty) nofun nofun ?_ ?_
  · rintro ⟨_, _, callee⟩ ⟨rfl, rfl, hadmits, hcallee⟩
    exact hanswer callee hadmits hcallee
  · rintro callee ⟨hadmits, hcallee⟩
    exact (hclosed.edges _ (hanswer callee hadmits hcallee)).2

end

/-! ## How many dynamic calls are put off -/

/-- How many dynamic calls a function has. -/
def dynamicCalls (p : Program) (c : Nat) : Nat :=
  ((p.functions[c]?.map p.dispatches).getD []).countP fun d => d.method?.isSome

/-- Whether the dynamic calls of all functions found are put off, but for those of functions that
wait and a number of others. -/
def Owes (p : Program) (left : Nat) (s : Rapid) : Prop :=
  methodCalls s.pending + (s.worklist.map (dynamicCalls p)).sum + left =
    (s.reachable.map (dynamicCalls p)).sum

section
variable {p : Program} {left : Nat} {s : Rapid}

/-- A function that was found waits, so none of its calls need be put off. -/
theorem Owes.reach (h : Owes p left s) (f : Nat) : Owes p left (s.reach f) := by
  unfold Rapid.reach
  split
  · exact h
  · rename_i hnew
    have hf : f ∉ s.reachable := by simpa using hnew
    unfold Owes at h ⊢
    dsimp only
    rw [((perm_insertOrdered connected_nat hf).map (dynamicCalls p)).sum_eq, List.map_cons,
      List.sum_cons, List.map_append, List.sum_append, List.map_singleton, List.sum_singleton]
    omega

/-- Edges do not matter to which calls are put off. -/
theorem Owes.addEdge (h : Owes p left s) (e : Edge) : Owes p left (s.addEdge e) := by
  unfold Owes
  rw [pending_addEdge, worklist_addEdge, reachable_addEdge]
  exact h

/-- A call that is put off is owed no more. -/
theorem Owes.takeCall {d : Dispatch}
    (h : Owes p (left + if d.method?.isSome then 1 else 0) s) (caller site : Nat) :
    Owes p left (Rapid.takeCall caller s d site) := by
  have hput : d.method?.isSome = true →
      Owes p left { s with pending := s.pending ++ [(caller, site, d)] } := by
    intro hd
    unfold Owes methodCalls at h ⊢
    rw [if_pos hd] at h
    rw [List.countP_append, List.countP_singleton, if_pos hd]
    dsimp only
    omega
  cases d with
  | static callee => exact (Owes.addEdge h _).reach callee
  | interface iface method => exact hput rfl
  | dynamic method => exact hput rfl
  | external => exact h

/-- Taking up calls puts off just the dynamic ones of them. -/
theorem Owes.takeCalls {sites : List (Dispatch × Nat)}
    (h : Owes p (left + (sites.map (·.1)).countP fun d => d.method?.isSome) s) (caller : Nat) :
    Owes p left (sites.foldl (fun s x => Rapid.takeCall caller s x.1 x.2) s) := by
  induction sites generalizing s with
  | nil => exact h
  | cons x sites ih =>
    rw [List.map_cons, List.countP_cons, ← Nat.add_assoc] at h
    exact ih (h.takeCall caller x.2)

/-- Live types do not matter to which calls are put off. -/
theorem Owes.addLives (h : Owes p left s) (types : List TypeRef) :
    Owes p left (types.foldl addLive s) :=
  List.foldlRecOn types addLive h fun _ hs _ _ => hs

/-- The dynamic calls of each function that was taken up are put off, once. -/
theorem kept_owes (p : Program) : Kept p (Owes p 0) where
  takeUp := by
    intro s f rest function h hw hf
    rw [takeUp_eq]
    have hcalls : dynamicCalls p f = (p.dispatches function).countP fun d => d.method?.isSome := by
      rw [dynamicCalls, hf]
      rfl
    have hnext : Owes p (dynamicCalls p f) { s with worklist := rest } := by
      unfold Owes at h ⊢
      rw [hw, List.map_cons, List.sum_cons] at h
      dsimp only
      omega
    refine Owes.takeCalls ?_ f
    rw [List.zipIdx_map_fst, Nat.zero_add, ← hcalls]
    exact hnext.addLives _
  resolveOne := by
    intro s caller site d method grew t h _ _ _
    unfold Rapid.resolveOne
    dsimp only
    split
    · split
      · exact (Owes.addEdge h _).reach _
      · exact h
    · exact h

/-! ## The order of live types -/

/-- Whether the live types are in order, none twice. -/
def Ordered (s : Rapid) : Prop :=
  s.live.Pairwise fun a b => !TypeRef.le b a

/-- A type is added in its place. -/
theorem Ordered.addLive (h : Ordered s) (t : TypeRef) : Ordered (s.addLive t) :=
  pairwise_insertOrdered trans_typeRef connected_typeRef h

/-- Finding a function leaves the types as they are. -/
theorem Ordered.reach (h : Ordered s) (f : Nat) : Ordered (s.reach f) := by
  rw [Ordered, live_reach]
  exact h

/-- Taking up a call leaves the types as they are. -/
theorem Ordered.takeCall (h : Ordered s) (caller : Nat) (d : Dispatch) (site : Nat) :
    Ordered (Rapid.takeCall caller s d site) := by
  cases d with
  | static callee =>
    refine Ordered.reach ?_ callee
    rw [Ordered, live_addEdge]
    exact h
  | interface iface method => exact h
  | dynamic method => exact h
  | external => exact h

/-- All steps keep the live types in order. -/
theorem kept_ordered (p : Program) : Kept p Ordered where
  takeUp := by
    intro s f rest function h hw hf
    rw [takeUp_eq]
    have hlives := List.foldlRecOn (motive := Ordered) function.decl.body.made Rapid.addLive
      (b := { s with worklist := rest }) h fun _ hs t _ => hs.addLive t
    exact List.foldlRecOn (p.dispatches function).zipIdx _ hlives fun _ hs x _ =>
      hs.takeCall f x.1 x.2
  resolveOne := by
    intro s caller site d method grew t h _ _ _
    rw [Ordered, (pending_live_resolveOne caller site d method (s, grew) t).2]
    exact h

/-- No type is live twice. -/
theorem Ordered.nodup (h : Ordered s) : s.live.Nodup :=
  h.imp fun hab heq => by simp [heq, TypeRef.le] at hab

end

/-! ## Rounds of one run -/

/-- What holds throughout the analysis when its entries are functions. -/
structure Running (p : Program) (s : Rapid) : Prop where
  progress : Progress p 0 s
  expanded : Expanded p [] s
  owes : Owes p 0 s
  ordered : Ordered s

/-- All steps keep what holds while the analysis runs. -/
theorem kept_running (p : Program) : Kept p (Running p) := by
  have hall := (kept_progress p 0).and ((kept_expanded p []).and ((kept_owes p).and
    (kept_ordered p)))
  have hiff : ∀ s, Running p s ↔ Progress p 0 s ∧ Expanded p [] s ∧ Owes p 0 s ∧ Ordered s :=
    fun s => ⟨fun h => ⟨h.progress, h.expanded, h.owes, h.ordered⟩,
      fun ⟨hprogress, hexpanded, howes, hordered⟩ => ⟨hprogress, hexpanded, howes, hordered⟩⟩
  simpa only [← hiff] using hall

section
variable {p : Program} {taken : Nat} {s : Rapid}

/-- The state with the entries alone has all that holds while the analysis runs. -/
theorem running_entries {entries : List Nat} (h : ∀ n ∈ entries, n < p.size) :
    Running p (entries.foldl Rapid.reach {}) := by
  have howes : Owes p 0 (entries.foldl Rapid.reach {}) :=
    List.foldlRecOn entries Rapid.reach rfl fun _ hs f _ => hs.reach f
  have hordered : Ordered (entries.foldl Rapid.reach {}) :=
    List.foldlRecOn entries Rapid.reach .nil fun _ hs f _ => hs.reach f
  exact ⟨progress_entries h, ⟨nofun, (expanded_entries p entries).taken⟩, howes, hordered⟩

/-- All that waits is taken up at the cost of a step for each function. This leads to the least
complete state that covers the one before. -/
theorem Running.drain (h : Running p s) (hcounted : Counted taken 0 s) : ∃ n s',
    Costs (fun budget => Rapid.drain p budget s) n s' ∧ Counted (taken + n) 0 s' ∧ Running p s' ∧
      s'.worklist = [] ∧ Complete p s' ∧ Covers s' s ∧
      ∀ t, Complete p t → Covers t s → Covers t s' := by
  obtain ⟨n, s', hn, hcounted', -, hw⟩ := exists_drain_cost h.progress hcounted
  have hrunning : Running p s' := hn.ensured ((kept_running p).drain h)
  exact ⟨n, s', hn, hcounted', hrunning, hw,
    ⟨hrunning.progress.closed, hrunning.expanded.takenUp hw⟩, hn.ensured (drain_covers s),
    fun t ht hcovers => hn.ensured (covers_drain ht h.progress.closed hcovers)⟩

/-- Dynamic calls are resolved at the cost of a step for each of them and each type. This leads to
the least state that covers the one before and answers its calls, and something was found anew just
when more is known. -/
theorem Running.resolve (h : Running p s) (hcounted : Counted taken 0 s) : ∃ state,
    Costs (resolvePending p s.live s.pending (s, false)) (methodCalls s.pending * s.live.length)
      state ∧
      Counted taken 0 state.1 ∧ Running p state.1 ∧ (state.2 = true ↔ s.known < state.1.known) ∧
      Answered p state.1 ∧ Covers state.1 s ∧
      ∀ t, Closed t → Answered p t → Covers t s → Covers t state.1 := by
  obtain ⟨state, hcost, -⟩ := exists_resolvePending_cost (p := p) s.live s.pending (s, false)
  have hresolved := hcost.ensured (resolvePending_resolved s.live s.pending (s, false))
  -- what does not change while calls are resolved, and what was found if something was
  have hkeeps : Ensures (fun _ => True) (resolvePending p s.live s.pending (s, false)) fun state =>
      Counted taken 0 state.1 ∧ Grown s.known state ∧ state.1.pending = s.pending ∧
        state.1.live = s.live := by
    refine resolvePending_keeps trivial (fun x _ method _ state t _ hstate => ?_)
      ⟨hcounted, ⟨Nat.le_refl _, nofun⟩, rfl, rfl⟩
    obtain ⟨hcounted, hgrown, hpending, hlive⟩ := hstate
    obtain ⟨hpending', hlive'⟩ := pending_live_resolveOne (p := p) x.1 x.2.1 x.2.2 method state t
    exact ⟨hcounted.resolveOne t, hgrown.resolveOne t, hpending'.trans hpending,
      hlive'.trans hlive⟩
  obtain ⟨hcounted', hgrown, hpending, hlive⟩ := hcost.ensured hkeeps
  refine ⟨state, hcost, hcounted', hcost.ensured ((kept_running p).resolvePending false h),
    ⟨hgrown.2, fun hmore => ?_⟩, ?_, hresolved.covers,
    fun t hclosed ht h => hcost.ensured (covers_resolvePending hclosed ht h)⟩
  · by_contra hgrew
    rw [hresolved.unchanged (Bool.eq_false_iff.mpr hgrew)] at hmore
    exact Nat.lt_irrefl _ hmore
  · intro x hx method hmethod
    rw [hlive]
    exact hresolved.answered x (hpending ▸ hx) method hmethod

end

/-! ## Two runs -/

/-- Entries that include others lead to a start that covers theirs. -/
theorem covers_entries {entries entries' : List Nat} (h : entries ⊆ entries') :
    Covers (entries'.foldl Rapid.reach {}) (entries.foldl Rapid.reach {}) := by
  have hempty : Covers (entries'.foldl Rapid.reach {}) {} := by constructor <;> simp
  refine hempty.adds (adds_reachAll entries {}) nofun nofun nofun fun c hc => ?_
  exact ((adds_reachAll entries' {}).reachable c).mpr (.inr (h hc))

/-- Whether two runs have found the same and have taken up as many functions. -/
structure Alike (p : Program) (taken : Nat) (s s' : Rapid) : Prop where
  left : Running p s
  right : Running p s'
  counted : Counted taken 0 s
  counted' : Counted taken 0 s'
  covers : Covers s s'
  covered : Covers s' s

/-- What the analysis gives when nothing more is found. -/
def outcome (s : Rapid) : Resolution :=
  { edges := s.edges.mergeSort Edge.le, reachable := some s.reachable }

section
variable {p : Program} {taken : Nat} {s s' : Rapid}

/-- States that are alike have found the same functions in the same order. -/
theorem Alike.reachable_eq (h : Alike p taken s s') : s.reachable = s'.reachable :=
  h.left.progress.closed.reachable_eq h.right.progress.closed h.covers h.covered

/-- States that are alike have the same edges, perhaps in another order. -/
theorem Alike.edges_perm (h : Alike p taken s s') : s.edges.Perm s'.edges :=
  (List.subperm_of_subset h.left.progress.sound.nodup h.covered.edges).antisymm
    (List.subperm_of_subset h.right.progress.sound.nodup h.covers.edges)

/-- States that are alike know the same number of edges and functions. -/
theorem Alike.known_eq (h : Alike p taken s s') : s.known = s'.known := by
  rw [known, known, h.edges_perm.length_eq, h.reachable_eq]

/-- States that are alike have the same number of live types. -/
theorem Alike.length_live (h : Alike p taken s s') : s.live.length = s'.live.length :=
  ((List.subperm_of_subset h.left.ordered.nodup h.covered.live).antisymm
    (List.subperm_of_subset h.right.ordered.nodup h.covers.live)).length_eq

/-- States that are alike have the same outcome. -/
theorem Alike.outcome_eq (h : Alike p taken s s') : s.outcome = s'.outcome := by
  have hedges : s.edges.mergeSort Edge.le = s'.edges.mergeSort Edge.le :=
    (pairwise_mergeSort_edges h.left.progress.sound.nodup).eq_of_mem_iff
      (pairwise_mergeSort_edges h.right.progress.sound.nodup) fun e => by
        rw [List.mem_mergeSort, List.mem_mergeSort, h.edges_perm.mem_iff]
  rw [outcome, outcome, hedges, h.reachable_eq]

/-- Two runs take up what waits at the same cost. -/
theorem Alike.drain (h : Alike p taken s s') : ∃ n s₁ s₁',
    Costs (fun budget => Rapid.drain p budget s) n s₁ ∧
    Costs (fun budget => Rapid.drain p budget s') n s₁' ∧
    Alike p (taken + n) s₁ s₁' ∧ s₁.worklist = [] ∧ s₁'.worklist = [] := by
  obtain ⟨n, s₁, hn, hcounted, hrunning, hw, hcomplete, hcovers, hleast⟩ := h.left.drain h.counted
  obtain ⟨n', s₁', hn', hcounted', hrunning', hw', hcomplete', hcovers', hleast'⟩ :=
    h.right.drain h.counted'
  have hcovers₁ : Covers s₁ s₁' := hleast' s₁ hcomplete (hcovers.trans h.covers)
  have hcovered₁ : Covers s₁' s₁ := hleast s₁' hcomplete' (hcovers'.trans h.covered)
  have hreachable : s₁.reachable = s₁'.reachable :=
    hcomplete.1.reachable_eq hcomplete'.1 hcovers₁ hcovered₁
  -- all functions found were taken up, in both runs
  obtain rfl : n = n' := by
    have htaken := hcounted.taken
    have htaken' := hcounted'.taken
    rw [hw, hreachable] at htaken
    rw [hw'] at htaken'
    omega
  exact ⟨n, s₁, s₁', hn, hn', ⟨hrunning, hrunning', hcounted, hcounted', hcovers₁, hcovered₁⟩, hw,
    hw'⟩

/-- Two runs resolve their dynamic calls at the same cost, and both or none find something. -/
theorem Alike.resolve (h : Alike p taken s s') (hw : s.worklist = []) (hw' : s'.worklist = []) :
    ∃ n state state', Costs (resolvePending p s.live s.pending (s, false)) n state ∧
      Costs (resolvePending p s'.live s'.pending (s', false)) n state' ∧
      Alike p taken state.1 state'.1 ∧ state.2 = state'.2 := by
  obtain ⟨state, hn, hcounted, hrunning, hgrew, hanswered, hcovers, hleast⟩ :=
    h.left.resolve h.counted
  obtain ⟨state', hn', hcounted', hrunning', hgrew', hanswered', hcovers', hleast'⟩ :=
    h.right.resolve h.counted'
  have halike : Alike p taken state.1 state'.1 :=
    { left := hrunning
      right := hrunning'
      counted := hcounted
      counted' := hcounted'
      covers := hleast' state.1 hrunning.progress.closed hanswered (hcovers.trans h.covers)
      covered := hleast state'.1 hrunning'.progress.closed hanswered' (hcovers'.trans h.covered) }
  have hcalls : methodCalls s.pending = methodCalls s'.pending := by
    have howes := h.left.owes
    have howes' := h.right.owes
    unfold Owes at howes howes'
    rw [hw, h.reachable_eq] at howes
    rw [hw'] at howes'
    omega
  rw [hcalls, h.length_live] at hn
  refine ⟨_, state, state', hn, hn', halike, Bool.eq_iff_iff.mpr ?_⟩
  rw [hgrew, hgrew', h.known_eq, halike.known_eq]

/-- Two runs that have found the same go on alike: for every number of steps they give the same and
leave the same number of steps, or fail both. -/
theorem Alike.rounds (h : Alike p taken s s') (bound : Nat) :
    (Rapid.rounds p bound s >>= fun s => pure s.outcome) =
      (Rapid.rounds p bound s' >>= fun s => pure s.outcome : Budgeted Resolution) := by
  induction bound generalizing taken s s' with
  | zero => rfl
  | succ bound ih =>
    obtain ⟨n, s₁, s₁', hdrain, hdrain', halike, hw, hw'⟩ := h.drain
    obtain ⟨m, state, state', hresolve, hresolve', hnext, hgrew⟩ := halike.resolve hw hw'
    funext budget
    rw [Rapid.rounds, Rapid.rounds, bind_assoc, bind_assoc, hdrain.bind_apply, hdrain'.bind_apply]
    split
    · rfl
    rw [bind_assoc, bind_assoc, hresolve.bind_apply, hresolve'.bind_apply]
    split
    · rfl
    dsimp only
    rw [hgrew]
    split
    · exact congrFun (ih hnext) _
    · rw [pure_bind, pure_bind, hnext.outcome_eq]

end

end Rapid

/-! ## The construction -/

/-- With a budget, rapid type analysis goes through one round for each step and one more. -/
theorem buildRapid_apply {p : Program} {entries : List Nat} (h : entries ≠ []) (budget : Nat) :
    buildRapid p entries budget =
      (Rapid.rounds p (budget + 1) (entries.foldl Rapid.reach {}) >>= fun s =>
        pure s.outcome : Budgeted Resolution) budget := by
  rw [buildRapid_eq h]
  rfl

/-- Entries that are functions may be given in any order and any number of times: for every number
of steps, rapid type analysis gives the same graph and leaves the same steps, or fails for the same
cause. -/
theorem construct_rapid_entries {p : Program} {entries entries' : List Nat}
    (h : ∀ n ∈ entries, n < p.size) (hsame : ∀ n, n ∈ entries ↔ n ∈ entries') (maxSteps : Nat) :
    construct p .rapid entries maxSteps = construct p .rapid entries' maxSteps ∧
      buildRapid p entries maxSteps = buildRapid p entries' maxSteps := by
  have hnil : entries = [] ↔ entries' = [] := by
    simp only [List.eq_nil_iff_forall_not_mem, hsame]
  have hbuild : buildRapid p entries maxSteps = buildRapid p entries' maxSteps := by
    by_cases hempty : entries = []
    · rw [hempty, hnil.mp hempty]
    · have hempty' : entries' ≠ [] := mt hnil.mpr hempty
      have halike : Rapid.Alike p 0 (entries.foldl Rapid.reach {})
          (entries'.foldl Rapid.reach {}) :=
        { left := Rapid.running_entries h
          right := Rapid.running_entries fun n hn => h n ((hsame n).mpr hn)
          counted := Rapid.counted_entries entries
          counted' := Rapid.counted_entries entries'
          covers := Rapid.covers_entries fun n => (hsame n).mpr
          covered := Rapid.covers_entries fun n => (hsame n).mp }
      rw [buildRapid_apply hempty, buildRapid_apply hempty', halike.rounds]
  refine ⟨?_, hbuild⟩
  simp only [construct, construction, Budgeted.run, hbuild]

/-- A function that would be found anyway is an entry here, named twice and before the other. The
budgets are the largest that is too small, and the next. -/
theorem construct_rapid_entries_relay :
    (∀ n ∈ [0, 2], n < relay.size) ∧ (∀ n, n ∈ [0, 2] ↔ n ∈ [2, 0, 2]) ∧
    construct relay .rapid [2, 0, 2] 7 = .error ⟨.rapid, .outOfSteps⟩ ∧
    construct relay .rapid [2, 0, 2] 8 =
      .ok { edges := [⟨0, 0, 1⟩, ⟨0, 0, 2⟩], reachable := some [0, 1, 2] } := by
  have hentries : ∀ n ∈ [0, 2], n < relay.size := by decide
  have hsame : ∀ n, n ∈ [0, 2] ↔ n ∈ [2, 0, 2] := fun n => by
    simp only [List.mem_cons, List.not_mem_nil, or_false]
    tauto
  have hfails : construct relay .rapid [0, 2] 7 = .error ⟨.rapid, .outOfSteps⟩ := by cbv
  have hgives : construct relay .rapid [0, 2] 8 =
      .ok { edges := [⟨0, 0, 1⟩, ⟨0, 0, 2⟩], reachable := some [0, 1, 2] } := by cbv
  exact ⟨hentries, hsame, (construct_rapid_entries hentries hsame 7).1.symm.trans hfails,
    (construct_rapid_entries hentries hsame 8).1.symm.trans hgives⟩

end CallImpact
