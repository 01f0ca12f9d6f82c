import CallImpact.Proofs.Construct.Rapid

/-!
# What rapid type analysis keeps

The analysis changes its state in two ways only: it takes up a function that waits, and it resolves
a dynamic call for one type. A property that both keep (`Rapid.Kept`) holds at the end of all
rounds (`Rapid.Kept.rounds`). One such property is that nothing leads out of what was found
(`Rapid.Closed`), so both ends of every edge are among the functions that the analysis reports
(`buildRapid_closed`).
-/

namespace CallImpact

namespace Rapid

section
variable {s : Rapid}

@[simp] theorem reachable_addEdge (e : Edge) : (s.addEdge e).reachable = s.reachable := by
  unfold addEdge
  split
  · rfl
  · rfl

@[simp] theorem worklist_addEdge (e : Edge) : (s.addEdge e).worklist = s.worklist := by
  unfold addEdge
  split
  · rfl
  · rfl

@[simp] theorem pending_addEdge (e : Edge) : (s.addEdge e).pending = s.pending := by
  unfold addEdge
  split
  · rfl
  · rfl

@[simp] theorem live_addEdge (e : Edge) : (s.addEdge e).live = s.live := by
  unfold addEdge
  split
  · rfl
  · rfl

@[simp] theorem live_reach (f : Nat) : (s.reach f).live = s.live := by
  unfold reach
  split
  · rfl
  · rfl

end

/-! ## Steps -/

/-- Whether both kinds of steps keep a property. Dynamic calls are resolved for live types only. -/
structure Kept (p : Program) (inv : Rapid → Prop) : Prop where
  takeUp : ∀ {s f rest function}, inv s → s.worklist = f :: rest → p.functions[f]? = some function →
    inv (takeUp p f function { s with worklist := rest })
  resolveOne : ∀ {s caller site d method} {grew t}, inv s → (caller, site, d) ∈ s.pending →
    t ∈ s.live → d.method? = some method → inv (resolveOne p caller site d method (s, grew) t).1

section
variable {p : Program} {inv : Rapid → Prop} {s : Rapid}

/-- To resolve a call puts off no other and makes no type live. -/
theorem pending_live_resolveOne (caller site : Nat) (d : Dispatch) (method : String)
    (state : Rapid × Bool) (t : TypeRef) :
    (resolveOne p caller site d method state t).1.pending = state.1.pending ∧
      (resolveOne p caller site d method state t).1.live = state.1.live := by
  unfold resolveOne
  dsimp only
  split
  · split
    · exact ⟨by rw [pending_reach, pending_addEdge], by rw [live_reach, live_addEdge]⟩
    · exact ⟨rfl, rfl⟩
  · exact ⟨rfl, rfl⟩

/-- Two properties that are kept are kept together. -/
protected theorem Kept.and {inv' : Rapid → Prop} (h : Kept p inv) (h' : Kept p inv') :
    Kept p fun s => inv s ∧ inv' s where
  takeUp hinv hw hf := ⟨h.takeUp hinv.1 hw hf, h'.takeUp hinv.2 hw hf⟩
  resolveOne hinv hmem hlive hmethod :=
    ⟨h.resolveOne hinv.1 hmem hlive hmethod, h'.resolveOne hinv.2 hmem hlive hmethod⟩

/-- What is kept when a function is taken up holds when no function waits any more. -/
theorem drain_keeps
    (hinv : ∀ {s f rest function}, inv s → s.worklist = f :: rest →
      p.functions[f]? = some function → inv (takeUp p f function { s with worklist := rest }))
    (h : inv s) : Ensures (fun _ => True) (fun budget => drain p budget s) inv := by
  intro budget
  induction budget generalizing s with
  | zero =>
    obtain ⟨reachable, live, pending, edges, worklist⟩ := s
    cases worklist with
    | nil => exact h
    | cons f rest => trivial
  | succ budget ih =>
    obtain ⟨reachable, live, pending, edges, worklist⟩ := s
    cases worklist with
    | nil => exact h
    | cons f rest =>
      dsimp only
      unfold drain
      cases hf : p.functions[f]? with
      | none => trivial
      | some function => exact ih (hinv h rfl hf)

/-- What all steps keep holds after all waiting functions were taken up. -/
theorem Kept.drain (hk : Kept p inv) (h : inv s) :
    Ensures (fun _ => True) (fun budget => Rapid.drain p budget s) inv :=
  drain_keeps hk.takeUp h

/-- While dynamic calls are resolved, the calls that were put off and the live types stay as they
are. -/
theorem Kept.resolvePending (hk : Kept p inv) (grew : Bool) (h : inv s) :
    Ensures (fun _ => True) (Rapid.resolvePending p s.live s.pending (s, grew)) fun state =>
      inv state.1 := by
  have hkeeps : ∀ x ∈ s.pending, ∀ method, x.2.2.method? = some method → ∀ state, ∀ t ∈ s.live,
      inv state.1 ∧ state.1.pending = s.pending ∧ state.1.live = s.live →
      inv (Rapid.resolveOne p x.1 x.2.1 x.2.2 method state t).1 ∧
        (Rapid.resolveOne p x.1 x.2.1 x.2.2 method state t).1.pending = s.pending ∧
        (Rapid.resolveOne p x.1 x.2.1 x.2.2 method state t).1.live = s.live := by
    rintro x hx method hmethod state t ht ⟨hinv, hpending, hlive⟩
    obtain ⟨hpending', hlive'⟩ := pending_live_resolveOne (p := p) x.1 x.2.1 x.2.2 method state t
    refine ⟨hk.resolveOne hinv (hpending ▸ hx) (hlive ▸ ht) hmethod, ?_, ?_⟩
    · rw [hpending', hpending]
    · rw [hlive', hlive]
  exact (resolvePending_keeps trivial hkeeps ⟨h, rfl, rfl⟩).mono fun _ h' => h'.1

/-- What is kept holds at the end of all rounds. -/
theorem Kept.rounds (hk : Kept p inv) (bound : Nat) (h : inv s) :
    Ensures (fun _ => True) (Rapid.rounds p bound s) inv := by
  induction bound generalizing s with
  | zero => exact .throw trivial
  | succ bound ih =>
    unfold Rapid.rounds
    refine (hk.drain h).bind fun drained hdrained => ?_
    refine (hk.resolvePending false hdrained).bind fun state hstate => ?_
    obtain ⟨s', grew⟩ := state
    cases grew with
    | true => exact ih hstate
    | false => exact .pure hstate

end

/-! ## Closed states -/

/-- Whether nothing leads out of the functions found, which are in increasing order. -/
structure Closed (s : Rapid) : Prop where
  increasing : s.reachable.Pairwise (· < ·)
  waiting : ∀ f ∈ s.worklist, f ∈ s.reachable
  pending : ∀ x ∈ s.pending, x.1 ∈ s.reachable
  edges : ∀ e ∈ s.edges, e.caller ∈ s.reachable ∧ e.callee ∈ s.reachable

section
variable {p : Program} {s : Rapid}

/-- Nothing leads out of the empty state. -/
theorem closed_empty : Closed {} where
  increasing := .nil
  waiting := by simp
  pending := by simp
  edges := by simp

/-- A function is found in its place. -/
theorem pairwise_reach (h : s.reachable.Pairwise (· < ·)) (f : Nat) :
    (s.reach f).reachable.Pairwise (· < ·) := by
  unfold reach
  split
  · exact h
  · have hins := pairwise_insertOrdered (x := f) trans_nat connected_nat
      (h.imp fun hab => decide_eq_true hab)
    exact hins.imp of_decide_eq_true

/-- A function that waits was found just now or waited before. -/
theorem mem_worklist_reach {f c : Nat} (h : c ∈ (s.reach f).worklist) :
    c = f ∨ c ∈ s.worklist := by
  unfold reach at h
  split at h
  · exact .inr h
  · rcases List.mem_append.mp h with h | h
    · exact .inr h
    · exact .inl (List.mem_singleton.mp h)

/-- Finding a function leads to no other. -/
theorem Closed.reach (h : Closed s) (f : Nat) : Closed (s.reach f) where
  increasing := pairwise_reach h.increasing f
  waiting c hc := by
    rw [mem_reach]
    exact (mem_worklist_reach hc).imp_right (h.waiting c)
  pending x hx := by
    rw [pending_reach] at hx
    exact mem_reach.mpr (.inr (h.pending x hx))
  edges e he := by
    rw [edges_reach] at he
    exact ⟨mem_reach.mpr (.inr (h.edges e he).1), mem_reach.mpr (.inr (h.edges e he).2)⟩

/-- An edge from a function that was found is added together with its callee. -/
theorem Closed.connect (h : Closed s) {e : Edge} (hcaller : e.caller ∈ s.reachable) :
    Closed ((s.addEdge e).reach e.callee) where
  increasing := pairwise_reach (by rw [reachable_addEdge]; exact h.increasing) _
  waiting c hc := by
    rw [mem_reach, reachable_addEdge]
    refine (mem_worklist_reach hc).imp_right fun hc => h.waiting c ?_
    rwa [worklist_addEdge] at hc
  pending x hx := by
    rw [pending_reach, pending_addEdge] at hx
    rw [mem_reach, reachable_addEdge]
    exact .inr (h.pending x hx)
  edges x hx := by
    rw [edges_reach, mem_addEdge] at hx
    rw [mem_reach, mem_reach, reachable_addEdge]
    rcases hx with hx | rfl
    · exact ⟨.inr (h.edges x hx).1, .inr (h.edges x hx).2⟩
    · exact ⟨.inr hcaller, .inl rfl⟩

/-- Taking up a call of a function that was found leads to no function that was not. -/
theorem Closed.takeCall (h : Closed s) {caller : Nat} (hcaller : caller ∈ s.reachable)
    (d : Dispatch) (site : Nat) :
    Closed (Rapid.takeCall caller s d site) ∧
      caller ∈ (Rapid.takeCall caller s d site).reachable := by
  have hpend : Closed { s with pending := s.pending ++ [(caller, site, d)] } := by
    refine { h with pending := fun x hx => ?_ }
    rcases List.mem_append.mp hx with hx | hx
    · exact h.pending x hx
    · rw [List.mem_singleton.mp hx]
      exact hcaller
  cases d with
  | static callee =>
    refine ⟨h.connect (e := ⟨caller, site, callee⟩) hcaller, mem_reach.mpr (.inr ?_)⟩
    rwa [reachable_addEdge]
  | interface iface method => exact ⟨hpend, hcaller⟩
  | dynamic method => exact ⟨hpend, hcaller⟩
  | external => exact ⟨h, hcaller⟩

/-- Taking up the calls of a function that was found keeps that nothing leads out. -/
theorem Closed.takeCalls (h : Closed s) {caller : Nat} (hcaller : caller ∈ s.reachable)
    (sites : List (Dispatch × Nat)) :
    Closed (sites.foldl (fun s x => Rapid.takeCall caller s x.1 x.2) s) := by
  induction sites generalizing s with
  | nil => exact h
  | cons x sites ih =>
    obtain ⟨h', hcaller'⟩ := h.takeCall hcaller x.1 x.2
    exact ih h' hcaller'

/-- Types lead to no function by themselves. -/
theorem Closed.addLives (h : Closed s) (types : List TypeRef) :
    Closed (types.foldl addLive s) ∧ (types.foldl addLive s).reachable = s.reachable := by
  induction types generalizing s with
  | nil => exact ⟨h, rfl⟩
  | cons t types ih => exact ih ⟨h.increasing, h.waiting, h.pending, h.edges⟩

/-- No step leads out of what was found. -/
theorem kept_closed (p : Program) : Kept p Closed where
  takeUp := by
    intro s f rest function h hw _
    have hf : f ∈ s.reachable := h.waiting f (hw ▸ List.mem_cons_self)
    have hrest : Closed { s with worklist := rest } :=
      { h with waiting := fun c hc => h.waiting c (hw ▸ List.mem_cons_of_mem f hc) }
    obtain ⟨hallocs, hreach⟩ := hrest.addLives function.decl.body.allocs
    obtain ⟨hlives, hreach'⟩ := hallocs.addLives (function.decl.body.declared.map (·.2))
    exact hlives.takeCalls (by rwa [hreach', hreach]) _
  resolveOne := by
    intro s caller site d method grew t h hmem _ _
    unfold Rapid.resolveOne
    dsimp only
    split
    · split
      · exact h.connect (e := ⟨caller, site, _⟩) (h.pending _ hmem)
      · exact h
    · exact h

/-- Finding entries keeps that nothing leads out. -/
theorem Closed.reachAll (h : Closed s) (entries : List Nat) :
    Closed (entries.foldl Rapid.reach s) := by
  induction entries generalizing s with
  | nil => exact h
  | cons f entries ih => exact ih (h.reach f)

end

end Rapid

/-- The functions that the analysis reaches are in increasing order, and both ends of every edge are
among them. -/
theorem buildRapid_closed (p : Program) (entries : List Nat) :
    Ensures (fun _ => True) (buildRapid p entries) fun r =>
      ∃ covered, r.reachable = some covered ∧ covered.Pairwise (· < ·) ∧
        ∀ e ∈ r.edges, e.caller ∈ covered ∧ e.callee ∈ covered := by
  unfold buildRapid
  split
  · exact .throw trivial
  refine Ensures.get.bind fun budget _ => ?_
  have hstart := Rapid.closed_empty.reachAll entries
  refine ((Rapid.kept_closed p).rounds _ hstart).bind fun s hs => .pure ?_
  refine ⟨s.reachable, rfl, hs.increasing, fun e he => hs.edges e ?_⟩
  exact List.mem_mergeSort.mp he

end CallImpact
