import CallImpact.Construct.Rapid
import CallImpact.Proofs.Construct.TypeFlow

/-!
# Rapid type analysis

The analysis takes up what it finds, one function after the other, and resolves dynamic calls in
rounds. `Rapid.Sound` is what each of its steps preserves: the edges found so far are edges of the
type hierarchy, and the direct calls of every function that was taken up are among them. A round
that finds nothing leaves no function to be taken up, so at the end this holds of all functions
that were found (`buildRapid_ensures`).
-/

namespace CallImpact

deriving instance ReflBEq, LawfulBEq for Edge

/-! ## Calls of functions -/

/-- Whether a function has a call with a dispatch. -/
def IsSite (p : Program) (caller site : Nat) (d : Dispatch) : Prop :=
  ∃ f, p.functions[caller]? = some f ∧ (p.dispatches f)[site]? = some d

/-- The edges of a table that depends on the dispatch of each call alone. -/
theorem mem_edgesOf_dispatchTable {p : Program} {targets : Dispatch → List Nat} {e : Edge} :
    e ∈ edgesOf ((dispatchTable p).map (List.map targets)) ↔
      ∃ d, IsSite p e.caller e.site d ∧ e.callee ∈ targets d := by
  rw [mem_edgesOf]
  simp only [dispatchTable, List.map_map, List.getElem?_map, Option.map_eq_some_iff,
    Function.comp_apply, IsSite]
  constructor
  · rintro ⟨sites, callees, ⟨f, hf, rfl⟩, hsite, hmem⟩
    obtain ⟨d, hd, rfl⟩ := Option.map_eq_some_iff.mp (List.getElem?_map ▸ hsite)
    exact ⟨d, ⟨f, hf, hd⟩, hmem⟩
  · rintro ⟨d, ⟨f, hf, hd⟩, hmem⟩
    exact ⟨_, targets d, ⟨f, hf, rfl⟩, by rw [List.getElem?_map, hd]; rfl, hmem⟩

/-- The targets of a call of a program are functions of it. -/
theorem lt_size_of_isSite {p : Program} {caller site n : Nat} {d : Dispatch}
    (h : IsSite p caller site d) (hn : n ∈ hierarchyTargets p d) : n < p.size := by
  obtain ⟨f, -, hd⟩ := h
  obtain ⟨-, rfl⟩ := Program.getElem?_dispatches.mp hd
  exact lt_size_of_mem_hierarchyTargets hn

namespace Rapid

/-! ## The invariant -/

/-- Whether all direct calls of a function are among the edges. -/
def Settled (p : Program) (edges : List Edge) (caller : Nat) : Prop :=
  ∀ site callee, IsSite p caller site (.static callee) → ⟨caller, site, callee⟩ ∈ edges

/-- What holds of the state while some functions are being taken up. Functions found are numbers of
functions, unless the analysis may fail for numbers that are not. -/
structure Sound (allowed : Cause → Prop) (p : Program) (current : List Nat) (s : Rapid) : Prop where
  nodup : s.edges.Nodup
  edges : ∀ e ∈ s.edges, ∃ d, IsSite p e.caller e.site d ∧ e.callee ∈ hierarchyTargets p d
  pending : ∀ x ∈ s.pending, IsSite p x.1 x.2.1 x.2.2
  settled : ∀ c ∈ s.reachable, c ∈ s.worklist ∨ c ∈ current ∨ Settled p s.edges c
  found : ∀ c ∈ s.worklist, c ∈ s.reachable
  range : Numbered allowed (∀ c ∈ s.reachable, c < p.size)

section
variable {allowed : Cause → Prop} {p : Program} {current : List Nat} {s : Rapid}

/-- The empty state holds nothing wrong. -/
theorem sound_empty : Sound allowed p [] {} where
  nodup := .nil
  edges := by simp
  pending := by simp
  settled := by simp
  found := by simp
  range := .inl (by simp)

/-- A function is found besides those that were found before. -/
theorem mem_reach {f c : Nat} : c ∈ (s.reach f).reachable ↔ c = f ∨ c ∈ s.reachable := by
  unfold reach
  split
  · rename_i hc
    have hf : f ∈ s.reachable := by simpa using hc
    exact ⟨.inr, fun h => h.elim (fun he => he ▸ hf) id⟩
  · exact mem_insertOrdered connected_nat

@[simp] theorem edges_reach (f : Nat) : (s.reach f).edges = s.edges := by
  unfold reach
  split
  · rfl
  · rfl

@[simp] theorem pending_reach (f : Nat) : (s.reach f).pending = s.pending := by
  unfold reach
  split
  · rfl
  · rfl

/-- Finding a function leaves what was found, and the function waits unless it was found before. -/
theorem Sound.reach (h : Sound allowed p current s) {f : Nat} (hf : Numbered allowed (f < p.size)) :
    Sound allowed p current (s.reach f) where
  nodup := (edges_reach f).symm ▸ h.nodup
  edges := (edges_reach f).symm ▸ h.edges
  pending := (pending_reach f).symm ▸ h.pending
  settled c hc := by
    rw [edges_reach]
    unfold Rapid.reach at hc ⊢
    split
    · rename_i hin
      rw [if_pos hin] at hc
      exact h.settled c hc
    · rename_i hin
      rw [if_neg hin] at hc
      rcases (mem_insertOrdered connected_nat).mp hc with rfl | hc
      · exact .inl (List.mem_append_right _ (List.mem_singleton_self _))
      · exact (h.settled c hc).imp_left (List.mem_append_left _)
  found c hc := by
    rw [mem_reach]
    unfold Rapid.reach at hc
    split at hc
    · exact .inr (h.found c hc)
    · rcases List.mem_append.mp hc with hc | hc
      · exact .inr (h.found c hc)
      · exact .inl (List.mem_singleton.mp hc)
  range := by
    rcases hf with hlt | hall
    · refine h.range.mono fun hrange c hc => ?_
      rcases mem_reach.mp hc with rfl | hc
      · exact hlt
      · exact hrange c hc
    · exact .inr hall

/-- An edge is added to those that were there. -/
theorem mem_addEdge {e x : Edge} : x ∈ (s.addEdge e).edges ↔ x ∈ s.edges ∨ x = e := by
  unfold addEdge
  split
  · rename_i hc
    have he : e ∈ s.edges := by simpa using hc
    exact ⟨.inl, fun h => h.elim id fun heq => heq ▸ he⟩
  · simp

/-- Adding an edge of the type hierarchy keeps the invariant. -/
theorem Sound.addEdge (h : Sound allowed p current s) {e : Edge} {d : Dispatch}
    (hsite : IsSite p e.caller e.site d) (hcallee : e.callee ∈ hierarchyTargets p d) :
    Sound allowed p current (s.addEdge e) := by
  unfold Rapid.addEdge
  split
  · exact h
  · rename_i hnew
    have he : e ∉ s.edges := by simpa using hnew
    refine { h with nodup := ?_, edges := ?_, settled := ?_ }
    · exact List.nodup_append.mpr ⟨h.nodup, List.nodup_singleton e, by
        intro a ha b hb heq
        rw [List.mem_singleton] at hb
        exact he (hb ▸ heq ▸ ha)⟩
    · intro x hx
      rcases List.mem_append.mp hx with hx | hx
      · exact h.edges x hx
      · rw [List.mem_singleton] at hx
        exact hx ▸ ⟨d, hsite, hcallee⟩
    · intro c hc
      exact (h.settled c hc).imp_right (Or.imp_right fun hset site callee hs =>
        List.mem_append_left _ (hset site callee hs))

/-! ## Taking up functions -/

/-- Taking up a call keeps the invariant and the edges, and adds the edge of a direct call. -/
theorem Sound.takeCall (h : Sound allowed p current s) {caller site : Nat} {d : Dispatch}
    (hsite : IsSite p caller site d) :
    Sound allowed p current (takeCall caller s d site) ∧
      s.edges ⊆ (Rapid.takeCall caller s d site).edges ∧
      ∀ callee, d = .static callee →
        ⟨caller, site, callee⟩ ∈ (Rapid.takeCall caller s d site).edges := by
  have hpend : Sound allowed p current { s with pending := s.pending ++ [(caller, site, d)] } := by
    refine { h with pending := fun x hx => ?_ }
    rcases List.mem_append.mp hx with hx | hx
    · exact h.pending x hx
    · rw [List.mem_singleton] at hx
      exact hx ▸ hsite
  cases d with
  | static callee =>
    have hmem : callee ∈ hierarchyTargets p (.static callee) := List.mem_singleton_self _
    have he := h.addEdge (e := ⟨caller, site, callee⟩) hsite hmem
    refine ⟨he.reach (.inl (lt_size_of_isSite hsite hmem)), ?_, ?_⟩
    · intro x hx
      rw [Rapid.takeCall, edges_reach]
      exact mem_addEdge.mpr (.inl hx)
    · rintro _ ⟨⟩
      rw [Rapid.takeCall, edges_reach]
      exact mem_addEdge.mpr (.inr rfl)
  | interface iface method => exact ⟨hpend, List.Subset.refl _, by simp⟩
  | dynamic method => exact ⟨hpend, List.Subset.refl _, by simp⟩
  | external => exact ⟨h, List.Subset.refl _, by simp⟩

/-- Taking up calls one after the other. -/
theorem Sound.takeCalls (h : Sound allowed p current s) {caller : Nat}
    {sites : List (Dispatch × Nat)} (hsites : ∀ x ∈ sites, IsSite p caller x.2 x.1) :
    Sound allowed p current (sites.foldl (fun s x => Rapid.takeCall caller s x.1 x.2) s) ∧
      s.edges ⊆ (sites.foldl (fun s x => Rapid.takeCall caller s x.1 x.2) s).edges ∧
      ∀ x ∈ sites, ∀ callee, x.1 = .static callee → ⟨caller, x.2, callee⟩ ∈
        (sites.foldl (fun s x => Rapid.takeCall caller s x.1 x.2) s).edges := by
  induction sites generalizing s with
  | nil => exact ⟨h, List.Subset.refl _, by simp⟩
  | cons x sites ih =>
    obtain ⟨h', hsub, hedge⟩ := h.takeCall (hsites x List.mem_cons_self)
    obtain ⟨h'', hsub', hedges⟩ := ih h' fun y hy => hsites y (List.mem_cons_of_mem x hy)
    refine ⟨h'', fun e he => hsub' (hsub he), fun y hy callee hcallee => ?_⟩
    rcases List.mem_cons.mp hy with rfl | hy
    · exact hsub' (hedge callee hcallee)
    · exact hedges y hy callee hcallee

/-- Types do not matter to the invariant. -/
theorem Sound.addLives (h : Sound allowed p current s) (types : List TypeRef) :
    Sound allowed p current (types.foldl addLive s) := by
  induction types generalizing s with
  | nil => exact h
  | cons t types ih => exact ih ⟨h.nodup, h.edges, h.pending, h.settled, h.found, h.range⟩

/-- The next function waits no longer, and is the one being taken up. -/
theorem Sound.next (h : Sound allowed p [] s) {f : Nat} {rest : List Nat}
    (hw : s.worklist = f :: rest) : Sound allowed p [f] { s with worklist := rest } := by
  refine { h with settled := fun c hc => ?_, found := fun c hc => h.found c ?_ }
  · rcases h.settled c hc with hwait | hc | hset
    · rw [hw] at hwait
      rcases List.mem_cons.mp hwait with rfl | hwait
      · exact .inr (.inl (List.mem_singleton_self c))
      · exact .inl hwait
    · cases hc
    · exact .inr (.inr hset)
  · rw [hw]
    exact List.mem_cons_of_mem f hc

/-- A function that was taken up has its direct calls among the edges. -/
theorem Sound.takeUp {caller : Nat} {f : Function} (h : Sound allowed p [caller] s)
    (hf : p.functions[caller]? = some f) : Sound allowed p [] (takeUp p caller f s) := by
  have hsites : ∀ x ∈ (p.dispatches f).zipIdx, IsSite p caller x.2 x.1 := fun x hx =>
    ⟨f, hf, List.mem_zipIdx_iff_getElem?.mp hx⟩
  obtain ⟨hs, -, hedges⟩ :=
    ((h.addLives f.decl.body.allocs).addLives (f.decl.body.declared.map (·.2))).takeCalls hsites
  have hcaller : Settled p (Rapid.takeUp p caller f s).edges caller := by
    rintro site callee ⟨f', hf', hd⟩
    obtain rfl : f' = f := Option.some.inj (hf'.symm.trans hf)
    exact hedges (.static callee, site) (List.mem_zipIdx_iff_getElem?.mpr hd) callee rfl
  refine { hs with settled := fun c hc => ?_ }
  rcases hs.settled c hc with hw | hc | hset
  · exact .inl hw
  · rw [List.mem_singleton] at hc
    exact .inr (.inr (hc ▸ hcaller))
  · exact .inr (.inr hset)

/-- Functions are taken up until none is left. -/
theorem drain_ensures (hsteps : allowed .outOfSteps) (h : Sound allowed p [] s) :
    Ensures allowed (fun budget => drain p budget s) fun s' =>
      Sound allowed p [] s' ∧ s'.worklist = [] := by
  intro budget
  induction budget generalizing s with
  | zero =>
    obtain ⟨reachable, live, pending, edges, worklist⟩ := s
    cases worklist with
    | nil => exact ⟨h, rfl⟩
    | cons f rest => exact hsteps
  | succ budget ih =>
    obtain ⟨reachable, live, pending, edges, worklist⟩ := s
    cases worklist with
    | nil => exact ⟨h, rfl⟩
    | cons f rest =>
      dsimp only
      unfold drain
      cases hf : p.functions[f]? with
      | none =>
        rcases h.range with hrange | hall
        · have hlt : f < p.size := hrange f (h.found f List.mem_cons_self)
          exact absurd hlt (Nat.not_lt.mpr (List.getElem?_eq_none_iff.mp hf))
        · exact hall _ _
      | some function =>
        exact ih ((h.next rfl).takeUp hf)

/-! ## Resolving dynamic calls -/

/-- Resolving a call for a type adds nothing wrong. -/
theorem Sound.resolveOne {caller site : Nat} {d : Dispatch} {method : String}
    {state : Rapid × Bool} (h : Sound allowed p [] state.1) (hsite : IsSite p caller site d)
    (hmethod : d.method? = some method) (t : TypeRef) :
    Sound allowed p [] (resolveOne p caller site d method state t).1 := by
  unfold Rapid.resolveOne
  dsimp only
  split
  · rename_i hadmits
    split
    · rename_i callee hcallee
      have hmem := (mem_hierarchyTargets hmethod).mpr ⟨t, hadmits, hcallee⟩
      have he := h.addEdge (e := ⟨caller, site, callee⟩) hsite hmem
      exact he.reach (.inl (lt_size_of_isSite hsite hmem))
    · exact h
  · exact h

/-- When nothing is found anew for a type, nothing changes. -/
theorem resolveOne_of_not_grew {caller site : Nat} {d : Dispatch} {method : String}
    {state : Rapid × Bool} {t : TypeRef}
    (h : (resolveOne p caller site d method state t).2 = false) :
    resolveOne p caller site d method state t = state := by
  unfold resolveOne at h ⊢
  dsimp only at h ⊢
  split
  · rename_i hadmits
    rw [if_pos hadmits] at h
    split
    · rename_i callee hcallee
      rw [hcallee] at h
      simp only [Bool.or_eq_false_iff, Bool.not_eq_false'] at h
      obtain ⟨hgrew, hedge, hreach⟩ := h
      rw [addEdge, if_pos hedge, reach, if_pos hreach, hedge, hreach]
      simp
    · rfl
  · rfl

/-- What holds while dynamic calls are resolved: no function waits unless something was found. -/
def Resolving (allowed : Cause → Prop) (p : Program) (state : Rapid × Bool) : Prop :=
  Sound allowed p [] state.1 ∧ (state.2 = false → state.1.worklist = [])

/-- Resolving a call for a type keeps what holds while calls are resolved. -/
theorem Resolving.resolveOne {caller site : Nat} {d : Dispatch} {method : String}
    {state : Rapid × Bool} (h : Resolving allowed p state) (hsite : IsSite p caller site d)
    (hmethod : d.method? = some method) (t : TypeRef) :
    Resolving allowed p (resolveOne p caller site d method state t) := by
  refine ⟨h.1.resolveOne hsite hmethod t, fun hgrew => ?_⟩
  have heq := resolveOne_of_not_grew hgrew
  rw [heq] at hgrew ⊢
  exact h.2 hgrew

/-- A property that resolving a call for one type keeps is kept for all types. -/
theorem resolveCall_keeps (hsteps : allowed .outOfSteps) {inv : Rapid × Bool → Prop}
    {caller site : Nat} {d : Dispatch} {method : String} {types : List TypeRef}
    (hinv : ∀ state, ∀ t ∈ types, inv state → inv (resolveOne p caller site d method state t))
    {state : Rapid × Bool} (h : inv state) :
    Ensures allowed (resolveCall p caller site d method types state) inv := by
  induction types generalizing state with
  | nil => exact .pure h
  | cons t types ih =>
    have htypes := fun state u hu => hinv state u (List.mem_cons_of_mem t hu)
    exact (Ensures.tick hsteps).bind fun _ _ => ih htypes (hinv state t List.mem_cons_self h)

/-- A property that resolving a call for one type keeps is kept for all calls. -/
theorem resolvePending_keeps (hsteps : allowed .outOfSteps) {inv : Rapid × Bool → Prop}
    {live : List TypeRef} {pending : List (Nat × Nat × Dispatch)}
    (hinv : ∀ x ∈ pending, ∀ method, x.2.2.method? = some method → ∀ state, ∀ t ∈ live, inv state →
      inv (resolveOne p x.1 x.2.1 x.2.2 method state t))
    {state : Rapid × Bool} (h : inv state) :
    Ensures allowed (resolvePending p live pending state) inv := by
  induction pending generalizing state with
  | nil => exact .pure h
  | cons x pending ih =>
    obtain ⟨caller, site, d⟩ := x
    have hrest := fun y hy => hinv y (List.mem_cons_of_mem _ hy)
    unfold resolvePending
    split
    · rename_i method hmethod
      have hcall := hinv _ List.mem_cons_self method hmethod
      exact (resolveCall_keeps hsteps hcall h).bind fun _ h' => ih hrest h'
    · exact ih hrest h

/-- Rounds end when nothing is found anew, and then no function waits. -/
theorem rounds_ensures (hsteps : allowed .outOfSteps) {bound : Nat} (h : Sound allowed p [] s) :
    Ensures allowed (rounds p bound s) fun s' => Sound allowed p [] s' ∧ s'.worklist = [] := by
  induction bound generalizing s with
  | zero => exact .throw hsteps
  | succ bound ih =>
    unfold rounds
    refine (drain_ensures hsteps h).bind fun drained hd => ?_
    have hstart : Resolving allowed p (drained, false) := ⟨hd.1, fun _ => hd.2⟩
    have hkeeps : ∀ x ∈ drained.pending, ∀ method, x.2.2.method? = some method →
        ∀ state, ∀ t ∈ drained.live, Resolving allowed p state →
          Resolving allowed p (resolveOne p x.1 x.2.1 x.2.2 method state t) :=
      fun x hx method hmethod state t _ h => h.resolveOne (hd.1.pending x hx) hmethod t
    refine (resolvePending_keeps hsteps hkeeps hstart).bind fun state hstate => ?_
    obtain ⟨s', grew⟩ := state
    cases grew with
    | true => exact ih hstate.1
    | false => exact .pure ⟨hstate.1, hstate.2 rfl⟩

/-- Finding entries adds nothing wrong when they are functions of the program. -/
theorem Sound.reachAll {entries : List Nat} (h : Sound allowed p [] s)
    (hentries : Numbered allowed (∀ f ∈ entries, f < p.size)) :
    Sound allowed p [] (entries.foldl Rapid.reach s) := by
  induction entries generalizing s with
  | nil => exact h
  | cons f entries ih =>
    have hf := hentries.mono fun hall => hall f List.mem_cons_self
    exact ih (h.reach hf) (hentries.mono fun hall x hx => hall x (List.mem_cons_of_mem f hx))

end

end Rapid

/-! ## The construction -/

/-- Edges that occur once are in increasing order when they are sorted. -/
theorem pairwise_mergeSort_edges {edges : List Edge} (hnodup : edges.Nodup) :
    (edges.mergeSort Edge.le).Pairwise Edge.Lt := by
  have hperm : (edges.mergeSort Edge.le).Perm edges := List.mergeSort_perm _ _
  have hle : (edges.mergeSort Edge.le).Pairwise fun a b => Edge.le a b := by
    apply List.pairwise_mergeSort
    · intro a b c hab hbc
      simp only [Edge.le, Bool.or_eq_true, Bool.and_eq_true, decide_eq_true_eq, beq_iff_eq] at *
      omega
    · intro a b
      simp only [Edge.le, Bool.or_eq_true, Bool.and_eq_true, decide_eq_true_eq, beq_iff_eq]
      omega
  refine hle.imp₂ (fun a b hab hne => ?_) (hperm.nodup_iff.mpr hnodup)
  have : a.caller = b.caller → a.site = b.site → a.callee ≠ b.callee := fun h1 h2 h3 => hne (by
    cases a
    cases b
    simp_all)
  simp only [Edge.le, Bool.or_eq_true, Bool.and_eq_true, decide_eq_true_eq, beq_iff_eq] at hab
  unfold Edge.Lt
  omega

/-- Edges in order that occur once are part of the edges of the type hierarchy. -/
theorem mergeSort_sublist_hierarchy {p : Program} {edges : List Edge} (hnodup : edges.Nodup)
    (h : ∀ e ∈ edges, ∃ d, IsSite p e.caller e.site d ∧ e.callee ∈ hierarchyTargets p d) :
    (edges.mergeSort Edge.le).Sublist
      (edgesOf ((dispatchTable p).map (List.map (hierarchyTargets p)))) := by
  have hlt := pairwise_mergeSort_edges hnodup
  refine List.sublist_of_subperm_of_pairwise (List.subperm_of_subset hlt.nodup fun e he => ?_) hlt
    (pairwise_hierarchyEdges p)
  exact mem_edgesOf_dispatchTable.mpr (h e (List.mem_mergeSort.mp he))

/-- The analysis gives part of the edges of the type hierarchy, among them the direct calls of all
functions that it reaches. -/
theorem buildRapid_ensures (allowed : Cause → Prop) (hsteps : allowed .outOfSteps)
    (hentry : allowed .noEntryPoint) (p : Program) (entries : List Nat)
    (hentries : Numbered allowed (∀ f ∈ entries, f < p.size)) :
    Ensures allowed (buildRapid p entries) fun r => ∃ covered, r.reachable = some covered ∧
      Numbered allowed (∀ f ∈ covered, f < p.size) ∧
      r.edges.Sublist (edgesOf ((dispatchTable p).map (List.map (hierarchyTargets p)))) ∧
      ∀ f ∈ covered, Rapid.Settled p r.edges f := by
  have hstart := (Rapid.sound_empty (p := p)).reachAll hentries
  unfold buildRapid
  split
  · exact .throw hentry
  refine (Ensures.get).bind fun budget _ => ?_
  refine (Rapid.rounds_ensures hsteps hstart).bind fun s hs => .pure ?_
  obtain ⟨hs, hw⟩ := hs
  refine ⟨s.reachable, rfl, hs.range, mergeSort_sublist_hierarchy hs.nodup hs.edges, ?_⟩
  intro f hf site callee hsite
  rw [List.mem_mergeSort]
  rcases hs.settled f hf with hwait | hcurrent | hset
  · rw [hw] at hwait
    cases hwait
  · cases hcurrent
  · exact hset site callee hsite

end CallImpact
