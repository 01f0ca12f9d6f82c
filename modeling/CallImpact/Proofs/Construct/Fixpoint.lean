import CallImpact.Proofs.Construct.Outcome
import CallImpact.Proofs.Construct.Reach
import Mathlib

/-!
# Rapid type analysis as a least fixpoint

A set of functions is closed when no call of it leads out (`ClosedFrom`): a direct call leads to
its callee, and a dynamic one to the methods of the types that the set itself makes and that can
answer it (`Follows`). The analysis finds the least closed set that has the entries, and the edges
that the calls of this set have (`rapid_least_fixpoint`).

Every step of the analysis only adds to its state. `Rapid.Adds` says what, and both directions
follow from it: what is added comes from any closed set (`Rapid.Within`), and a function that was
taken up has left all that belongs to it in the state (`Rapid.Expanded`). A round that finds
nothing anew has answered all dynamic calls for all types (`Rapid.Answered`), also for those types
that became live after a call was put off.
-/

namespace CallImpact

/-! ## Closed sets of functions -/

/-- The types that a body allocates or declares variables of. -/
def BodyFacts.made (body : BodyFacts) : List TypeRef :=
  body.allocs ++ body.declared.map (·.2)

/-- Whether some function of a set makes values of a type. -/
def MadeIn (p : Program) (covered : Set Nat) (t : TypeRef) : Prop :=
  ∃ c ∈ covered, ∃ f, p.functions[c]? = some f ∧ t ∈ f.decl.body.made

/-- The edges that the calls of a set of functions have. -/
inductive Follows (p : Program) (covered : Set Nat) : Edge → Prop where
  | direct {caller site callee : Nat} :
      caller ∈ covered → IsSite p caller site (.static callee) →
      Follows p covered ⟨caller, site, callee⟩
  /-- A method of a type that the set makes and that can answer the call. -/
  | dynamic {caller site callee : Nat} {d : Dispatch} {method : String} {t : TypeRef} :
      caller ∈ covered → IsSite p caller site d → d.method? = some method →
      MadeIn p covered t → admits p d t → p.lookupMethod? t method = some callee →
      Follows p covered ⟨caller, site, callee⟩

/-- Whether a set of functions has the entries and no call of it leads out. -/
structure ClosedFrom (p : Program) (entries : List Nat) (covered : Set Nat) : Prop where
  entries : ∀ f ∈ entries, f ∈ covered
  calls : ∀ e, Follows p covered e → e.callee ∈ covered

namespace Rapid

/-! ## What steps add -/

/-- Whether a state has more types, calls that were put off, edges and functions than another: just
the given ones. A function waits when it waited before or was found anew. -/
structure Adds (types : Set TypeRef) (calls : Set (Nat × Nat × Dispatch)) (edges : Set Edge)
    (found : Set Nat) (s s' : Rapid) : Prop where
  live : ∀ t, t ∈ s'.live ↔ t ∈ s.live ∨ t ∈ types
  pending : ∀ x, x ∈ s'.pending ↔ x ∈ s.pending ∨ x ∈ calls
  edges : ∀ e, e ∈ s'.edges ↔ e ∈ s.edges ∨ e ∈ edges
  reachable : ∀ c, c ∈ s'.reachable ↔ c ∈ s.reachable ∨ c ∈ found
  worklist : ∀ c, c ∈ s'.worklist ↔ c ∈ s.worklist ∨ c ∈ s'.reachable ∧ c ∉ s.reachable

section
variable {types types' : Set TypeRef} {calls calls' : Set (Nat × Nat × Dispatch)}
  {edges edges' : Set Edge} {found found' : Set Nat} {s s' s'' : Rapid}

/-- Nothing is added where nothing is done. -/
theorem Adds.refl (s : Rapid) : Adds ∅ ∅ ∅ ∅ s s where
  live := by simp
  pending := by simp
  edges := by simp
  reachable := by simp
  worklist := by simp

/-- Two steps in a row add what both add. -/
theorem Adds.trans (h : Adds types calls edges found s s')
    (h' : Adds types' calls' edges' found' s' s'') :
    Adds (types ∪ types') (calls ∪ calls') (edges ∪ edges') (found ∪ found') s s'' where
  live t := by rw [h'.live, h.live, or_assoc, Set.mem_union]
  pending x := by rw [h'.pending, h.pending, or_assoc, Set.mem_union]
  edges e := by rw [h'.edges, h.edges, or_assoc, Set.mem_union]
  reachable c := by rw [h'.reachable, h.reachable, or_assoc, Set.mem_union]
  worklist c := by
    have hfirst := h.reachable c
    have hsecond := h'.reachable c
    rw [h'.worklist, h.worklist]
    tauto

/-- Steps for the elements of a list add what the steps for each of them add. -/
theorem Adds.foldl {α : Type} {f : Rapid → α → Rapid} {types : α → Set TypeRef}
    {calls : α → Set (Nat × Nat × Dispatch)} {edges : α → Set Edge} {found : α → Set Nat}
    (h : ∀ s x, Adds (types x) (calls x) (edges x) (found x) s (f s x)) (xs : List α) (s : Rapid) :
    Adds {t | ∃ x ∈ xs, t ∈ types x} {c | ∃ x ∈ xs, c ∈ calls x} {e | ∃ x ∈ xs, e ∈ edges x}
      {c | ∃ x ∈ xs, c ∈ found x} s (xs.foldl f s) := by
  induction xs generalizing s with
  | nil => simpa using Adds.refl s
  | cons x xs ih =>
    have hall := (h s x).trans (ih (f s x))
    constructor
    · intro t
      rw [List.foldl_cons, hall.live]
      simp
    · intro c
      rw [List.foldl_cons, hall.pending]
      simp
    · intro e
      rw [List.foldl_cons, hall.edges]
      simp
    · intro c
      rw [List.foldl_cons, hall.reachable]
      simp
    · exact hall.worklist

/-- Making a type live adds the type alone. -/
theorem adds_addLive (s : Rapid) (t : TypeRef) : Adds {t} ∅ ∅ ∅ s (s.addLive t) where
  live u := by
    rw [addLive, mem_insertOrdered connected_typeRef, Set.mem_singleton_iff, or_comm]
  pending := by simp [addLive]
  edges := by simp [addLive]
  reachable := by simp [addLive]
  worklist := by simp [addLive]

/-- After a function was found, a function waits when it waited before or is new. -/
theorem mem_worklist_reach_iff {f c : Nat} :
    c ∈ (s.reach f).worklist ↔ c ∈ s.worklist ∨ c ∈ (s.reach f).reachable ∧ c ∉ s.reachable := by
  rw [mem_reach]
  unfold reach
  split
  · rename_i hf
    have hf : f ∈ s.reachable := by simpa using hf
    have : c = f → c ∈ s.reachable := fun h => h ▸ hf
    tauto
  · rename_i hf
    have hf : f ∉ s.reachable := by simpa using hf
    have : c = f → c ∉ s.reachable := fun h => h ▸ hf
    rw [List.mem_append, List.mem_singleton]
    tauto

/-- Finding a function adds the function alone. -/
theorem adds_reach (s : Rapid) (f : Nat) : Adds ∅ ∅ ∅ {f} s (s.reach f) where
  live := by simp
  pending := by simp
  edges := by simp
  reachable c := by rw [mem_reach, Set.mem_singleton_iff, or_comm]
  worklist _ := mem_worklist_reach_iff

/-- Adding an edge adds the edge alone. -/
theorem adds_addEdge (s : Rapid) (e : Edge) : Adds ∅ ∅ {e} ∅ s (s.addEdge e) where
  live := by simp
  pending := by simp
  edges x := by rw [mem_addEdge, Set.mem_singleton_iff]
  reachable := by simp
  worklist := by simp

/-- An edge is added together with its callee. -/
theorem adds_connect (s : Rapid) (e : Edge) :
    Adds ∅ ∅ {e} {e.callee} s ((s.addEdge e).reach e.callee) := by
  simpa using (adds_addEdge s e).trans (adds_reach _ e.callee)

/-- To take up a call adds the edge of a direct call, and puts a dynamic one off. -/
theorem adds_takeCall (caller : Nat) (s : Rapid) (d : Dispatch) (site : Nat) :
    Adds ∅ {x | x = (caller, site, d) ∧ d.method?.isSome}
      {e | e.caller = caller ∧ e.site = site ∧ d = .static e.callee} {c | d = .static c} s
      (takeCall caller s d site) := by
  have hput : Adds ∅ {(caller, site, d)} ∅ ∅ s
      { s with pending := s.pending ++ [(caller, site, d)] } := by
    constructor <;> simp
  unfold takeCall
  cases d with
  | static callee =>
    have hedge : {e : Edge | e.caller = caller ∧ e.site = site ∧
        Dispatch.static callee = .static e.callee} = {⟨caller, site, callee⟩} := by
      ext ⟨caller', site', callee'⟩
      simp [eq_comm]
    have hfound : {c | Dispatch.static callee = .static c} = {callee} := by
      ext c
      simp [eq_comm]
    rw [hedge, hfound]
    simpa [Dispatch.method?] using adds_connect s ⟨caller, site, callee⟩
  | interface iface method => simpa [Dispatch.method?] using hput
  | dynamic method => simpa [Dispatch.method?] using hput
  | external => simpa [Dispatch.method?] using Adds.refl s

/-- To take up a function makes its types live and then follows its calls. -/
theorem takeUp_eq (p : Program) (caller : Nat) (f : Function) (s : Rapid) :
    takeUp p caller f s = (p.dispatches f).zipIdx.foldl (fun s x => takeCall caller s x.1 x.2)
      (f.decl.body.made.foldl addLive s) := by
  rw [BodyFacts.made, List.foldl_append]
  rfl

/-- To take up a function adds the types that it makes, the edges of its direct calls, and puts its
dynamic calls off. -/
theorem adds_takeUp {p : Program} {caller : Nat} {f : Function} (hf : p.functions[caller]? = some f)
    (s : Rapid) :
    Adds {t | t ∈ f.decl.body.made}
      {x | x.1 = caller ∧ IsSite p caller x.2.1 x.2.2 ∧ x.2.2.method?.isSome}
      {e | e.caller = caller ∧ IsSite p caller e.site (.static e.callee)}
      {c | ∃ site, IsSite p caller site (.static c)} s (takeUp p caller f s) := by
  have hsite : ∀ {site d}, IsSite p caller site d ↔ (d, site) ∈ (p.dispatches f).zipIdx := by
    intro site d
    rw [List.mem_zipIdx_iff_getElem?]
    constructor
    · rintro ⟨f', hf', hd⟩
      obtain rfl : f' = f := Option.some.inj (hf'.symm.trans hf)
      exact hd
    · exact fun hd => ⟨f, hf, hd⟩
  rw [takeUp_eq]
  have hlive := Adds.foldl adds_addLive f.decl.body.made s
  have hcalls := Adds.foldl (f := fun s (x : Dispatch × Nat) => takeCall caller s x.1 x.2)
    (fun s x => adds_takeCall caller s x.1 x.2) (p.dispatches f).zipIdx
    (f.decl.body.made.foldl addLive s)
  have hall := hlive.trans hcalls
  refine ⟨fun t => ?_, fun x => ?_, fun e => ?_, fun c => ?_, hall.worklist⟩
  · rw [hall.live]
    simp
  · rw [hall.pending]
    refine or_congr_right ⟨?_, ?_⟩
    · rintro (⟨t, -, hx⟩ | ⟨⟨d, site⟩, hmem, rfl, hd⟩)
      · cases hx
      · exact ⟨rfl, hsite.mpr hmem, hd⟩
    · rintro ⟨rfl, hx, hd⟩
      exact .inr ⟨(x.2.2, x.2.1), hsite.mp hx, rfl, hd⟩
  · rw [hall.edges]
    refine or_congr_right ⟨?_, ?_⟩
    · rintro (⟨t, -, he⟩ | ⟨⟨d, site⟩, hmem, rfl, rfl, rfl⟩)
      · cases he
      · exact ⟨rfl, hsite.mpr hmem⟩
    · rintro ⟨rfl, he⟩
      exact .inr ⟨(.static e.callee, e.site), hsite.mp he, rfl, rfl, rfl⟩
  · rw [hall.reachable]
    refine or_congr_right ⟨?_, ?_⟩
    · rintro (⟨t, -, hc⟩ | ⟨⟨d, site⟩, hmem, rfl⟩)
      · cases hc
      · exact ⟨site, hsite.mpr hmem⟩
    · rintro ⟨site, hc⟩
      exact .inr ⟨(.static c, site), hsite.mp hc, rfl⟩

/-- To resolve a call for a type adds the edge to the method of the type that answers the call. -/
theorem adds_resolveOne (p : Program) (caller site : Nat) (d : Dispatch) (method : String)
    (state : Rapid × Bool) (t : TypeRef) :
    Adds ∅ ∅
      {e | e.caller = caller ∧ e.site = site ∧ admits p d t ∧
        p.lookupMethod? t method = some e.callee}
      {c | admits p d t ∧ p.lookupMethod? t method = some c} state.1
      (resolveOne p caller site d method state t).1 := by
  have hnone : (¬ admits p d t ∨ p.lookupMethod? t method = none) →
      Adds ∅ ∅
        {e | e.caller = caller ∧ e.site = site ∧ admits p d t ∧
          p.lookupMethod? t method = some e.callee}
        {c | admits p d t ∧ p.lookupMethod? t method = some c} state.1 state.1 := by
    rintro (hno | hno)
    · simpa [hno] using Adds.refl state.1
    · simpa [hno] using Adds.refl state.1
  unfold resolveOne
  dsimp only
  split
  · rename_i hadmits
    split
    · rename_i callee hcallee
      have hedge : {e : Edge | e.caller = caller ∧ e.site = site ∧ admits p d t ∧
          p.lookupMethod? t method = some e.callee} = {⟨caller, site, callee⟩} := by
        ext ⟨caller', site', callee'⟩
        simp [hadmits, hcallee, eq_comm]
      have hfound : {c | admits p d t ∧ p.lookupMethod? t method = some c} = {callee} := by
        ext c
        simp [hadmits, hcallee, eq_comm]
      rw [hedge, hfound]
      exact adds_connect state.1 ⟨caller, site, callee⟩
    · exact hnone (.inr ‹_›)
  · exact hnone (.inl ‹_›)

/-! ## States that cover others -/

/-- Whether a state has all that another has found. What waits does not matter. -/
structure Covers (t s : Rapid) : Prop where
  live : s.live ⊆ t.live
  pending : s.pending ⊆ t.pending
  edges : s.edges ⊆ t.edges
  reachable : s.reachable ⊆ t.reachable

/-- A state covers itself. -/
theorem Covers.refl (s : Rapid) : Covers s s :=
  ⟨List.Subset.refl _, List.Subset.refl _, List.Subset.refl _, List.Subset.refl _⟩

/-- What covers a state covers all that it covers. -/
theorem Covers.trans (h : Covers t s') (h' : Covers s' s) : Covers t s where
  live := List.Subset.trans h'.live h.live
  pending := List.Subset.trans h'.pending h.pending
  edges := List.Subset.trans h'.edges h.edges
  reachable := List.Subset.trans h'.reachable h.reachable

/-- What only adds to a state covers it. -/
theorem Adds.covers (h : Adds types calls edges found s s') : Covers s' s where
  live x hx := (h.live x).mpr (.inl hx)
  pending x hx := (h.pending x).mpr (.inl hx)
  edges e he := (h.edges e).mpr (.inl he)
  reachable c hc := (h.reachable c).mpr (.inl hc)

end

/-! ## Nothing too much -/

/-- Whether all that a state holds comes from a set of functions. -/
structure Within (p : Program) (covered : Set Nat) (s : Rapid) : Prop where
  reachable : ∀ c ∈ s.reachable, c ∈ covered
  waiting : ∀ c ∈ s.worklist, c ∈ s.reachable
  live : ∀ t ∈ s.live, MadeIn p covered t
  pending : ∀ x ∈ s.pending, x.1 ∈ covered ∧ IsSite p x.1 x.2.1 x.2.2
  edges : ∀ e ∈ s.edges, Follows p covered e

section
variable {p : Program} {entries : List Nat} {covered : Set Nat} {types : Set TypeRef}
  {calls : Set (Nat × Nat × Dispatch)} {edges : Set Edge} {found : Set Nat} {s s' : Rapid}

/-- A step stays within a set when all that it adds comes from there. -/
theorem Within.adds (h : Within p covered s) (hadds : Adds types calls edges found s s')
    (hfound : ∀ c ∈ found, c ∈ covered) (hlive : ∀ t ∈ types, MadeIn p covered t)
    (hpending : ∀ x ∈ calls, x.1 ∈ covered ∧ IsSite p x.1 x.2.1 x.2.2)
    (hedges : ∀ e ∈ edges, Follows p covered e) : Within p covered s' where
  reachable c hc := ((hadds.reachable c).mp hc).elim (h.reachable c) (hfound c)
  waiting c hc := by
    rcases (hadds.worklist c).mp hc with hc | hc
    · exact (hadds.reachable c).mpr (.inl (h.waiting c hc))
    · exact hc.1
  live t ht := ((hadds.live t).mp ht).elim (h.live t) (hlive t)
  pending x hx := ((hadds.pending x).mp hx).elim (h.pending x) (hpending x)
  edges e he := ((hadds.edges e).mp he).elim (h.edges e) (hedges e)

/-- No step leads out of any closed set. -/
theorem kept_within (p : Program) (entries : List Nat) :
    Kept p fun s => ∀ covered, ClosedFrom p entries covered → Within p covered s where
  takeUp := by
    intro s f rest function hall hw hf covered hc
    have h := hall covered hc
    have hwait : ∀ c ∈ rest, c ∈ s.worklist := fun c hc => hw ▸ List.mem_cons_of_mem f hc
    have hcovered : f ∈ covered := h.reachable f (h.waiting f (hw ▸ List.mem_cons_self))
    have hrest : Within p covered { s with worklist := rest } :=
      { h with waiting := fun c hc => h.waiting c (hwait c hc) }
    refine hrest.adds (adds_takeUp hf _) ?_ ?_ ?_ ?_
    · rintro c ⟨site, hsite⟩
      exact hc.calls ⟨f, site, c⟩ (.direct hcovered hsite)
    · exact fun t ht => ⟨f, hcovered, function, hf, ht⟩
    · rintro ⟨_, site, d⟩ ⟨rfl, hsite, -⟩
      exact ⟨hcovered, hsite⟩
    · rintro ⟨_, site, callee⟩ ⟨rfl, hsite⟩
      exact .direct hcovered hsite
  resolveOne := by
    intro s caller site d method grew t hall hmem hlive hmethod covered hc
    have h := hall covered hc
    obtain ⟨hcovered, hsite⟩ := h.pending _ hmem
    have hfollows : ∀ callee, admits p d t → p.lookupMethod? t method = some callee →
        Follows p covered ⟨caller, site, callee⟩ := fun callee hadmits hcallee =>
      .dynamic hcovered hsite hmethod (h.live t hlive) hadmits hcallee
    refine h.adds (adds_resolveOne p caller site d method (s, grew) t) ?_ (by simp) (by simp) ?_
    · rintro c ⟨hadmits, hcallee⟩
      exact hc.calls _ (hfollows c hadmits hcallee)
    · rintro ⟨_, _, callee⟩ ⟨rfl, rfl, hadmits, hcallee⟩
      exact hfollows callee hadmits hcallee

/-! ## Nothing left out -/

/-- Whether a state holds all that a function brings when it is taken up. -/
structure TakenUp (p : Program) (s : Rapid) (c : Nat) : Prop where
  live : ∃ f, p.functions[c]? = some f ∧ ∀ t ∈ f.decl.body.made, t ∈ s.live
  pending : ∀ site d, IsSite p c site d → d.method?.isSome → (c, site, d) ∈ s.pending
  edges : ∀ site callee, IsSite p c site (.static callee) → ⟨c, site, callee⟩ ∈ s.edges

/-- A function that was taken up stays so while more is added. -/
theorem TakenUp.adds {c : Nat} (h : TakenUp p s c) (hadds : Adds types calls edges found s s') :
    TakenUp p s' c where
  live := by
    obtain ⟨f, hf, hlive⟩ := h.live
    exact ⟨f, hf, fun t ht => (hadds.live t).mpr (.inl (hlive t ht))⟩
  pending site d hsite hd := (hadds.pending _).mpr (.inl (h.pending site d hsite hd))
  edges site callee hsite := (hadds.edges _).mpr (.inl (h.edges site callee hsite))

/-- Whether the entries were found, and every function that was found waits or was taken up. -/
structure Expanded (p : Program) (entries : List Nat) (s : Rapid) : Prop where
  entries : ∀ f ∈ entries, f ∈ s.reachable
  taken : ∀ c ∈ s.reachable, c ∈ s.worklist ∨ TakenUp p s c

/-- Functions that are added wait, and those that were taken up stay so. -/
theorem Expanded.adds (h : Expanded p entries s) (hadds : Adds types calls edges found s s') :
    Expanded p entries s' where
  entries f hf := (hadds.reachable f).mpr (.inl (h.entries f hf))
  taken c hc := by
    by_cases hold : c ∈ s.reachable
    · rcases h.taken c hold with hw | ht
      · exact .inl ((hadds.worklist c).mpr (.inl hw))
      · exact .inr (ht.adds hadds)
    · exact .inl ((hadds.worklist c).mpr (.inr ⟨hc, hold⟩))

/-- All steps keep that functions found wait or were taken up. -/
theorem kept_expanded (p : Program) (entries : List Nat) : Kept p (Expanded p entries) where
  takeUp := by
    intro s f rest function h hw hf
    have hadds := adds_takeUp hf { s with worklist := rest }
    have hself : TakenUp p (takeUp p f function { s with worklist := rest }) f :=
      { live := ⟨function, hf, fun t ht => (hadds.live t).mpr (.inr ht)⟩
        pending := fun site d hsite hd => (hadds.pending _).mpr (.inr ⟨rfl, hsite, hd⟩)
        edges := fun site callee hsite => (hadds.edges _).mpr (.inr ⟨rfl, hsite⟩) }
    refine ⟨fun c hc => (hadds.reachable c).mpr (.inl (h.entries c hc)), fun c hc => ?_⟩
    by_cases hold : c ∈ s.reachable
    · rcases h.taken c hold with hwait | htaken
      · rcases List.mem_cons.mp (hw ▸ hwait) with rfl | hrest
        · exact .inr hself
        · exact .inl ((hadds.worklist c).mpr (.inl hrest))
      · have hrest : TakenUp p { s with worklist := rest } c := { htaken with }
        exact .inr (hrest.adds hadds)
    · exact .inl ((hadds.worklist c).mpr (.inr ⟨hc, hold⟩))
  resolveOne := by
    intro s caller site d method grew t h _ _ _
    exact h.adds (adds_resolveOne p caller site d method (s, grew) t)

/-! ## Calls that are answered -/

/-- Whether a dynamic call has its edge to the method of each of some types that can answer it. -/
def AnsweredFor (p : Program) (types : List TypeRef) (edges : List Edge) (caller site : Nat)
    (d : Dispatch) (method : String) : Prop :=
  ∀ t ∈ types, admits p d t → ∀ callee, p.lookupMethod? t method = some callee →
    ⟨caller, site, callee⟩ ∈ edges

/-- A call that is answered stays so when there are more edges. -/
theorem AnsweredFor.mono {types : List TypeRef} {known more : List Edge} {caller site : Nat}
    {d : Dispatch} {method : String} (h : AnsweredFor p types known caller site d method)
    (hsub : known ⊆ more) : AnsweredFor p types more caller site d method :=
  fun t ht hadmits callee hcallee => hsub (h t ht hadmits callee hcallee)

/-- Whether all dynamic calls that were put off are answered for all live types. -/
def Answered (p : Program) (s : Rapid) : Prop :=
  ∀ x ∈ s.pending, ∀ method, x.2.2.method? = some method →
    AnsweredFor p s.live s.edges x.1 x.2.1 x.2.2 method

/-- A dynamic call that was resolved for some types is answered for them. Nothing is taken back, and
when nothing is found anew, nothing changes. -/
theorem resolveCall_answers (caller site : Nat) (d : Dispatch) (method : String)
    (types : List TypeRef) (state : Rapid × Bool) :
    Ensures (fun _ => True) (resolveCall p caller site d method types state) fun state' =>
      Covers state'.1 state.1 ∧ AnsweredFor p types state'.1.edges caller site d method ∧
        (state'.2 = false → state' = state) := by
  induction types generalizing state with
  | nil => exact .pure ⟨Covers.refl _, nofun, fun _ => rfl⟩
  | cons t types ih =>
    have hadds := adds_resolveOne p caller site d method state t
    refine (Ensures.tick trivial).bind fun _ _ =>
      (ih _).mono fun state' ⟨hcovers, hrest, hsame⟩ => ?_
    refine ⟨hcovers.trans hadds.covers, List.forall_mem_cons.mpr ⟨fun hadmits callee hcallee => ?_,
      hrest⟩, fun hgrew => ?_⟩
    · exact hcovers.edges ((hadds.edges _).mpr (.inr ⟨rfl, rfl, hadmits, hcallee⟩))
    · obtain rfl := hsame hgrew
      exact resolveOne_of_not_grew hgrew

/-- Whether a state is one after dynamic calls were resolved for some types: each of them is
answered, nothing was taken back, and nothing changed when nothing was found anew. -/
structure Resolved (p : Program) (live : List TypeRef) (pending : List (Nat × Nat × Dispatch))
    (state state' : Rapid × Bool) : Prop where
  covers : Covers state'.1 state.1
  answered : ∀ x ∈ pending, ∀ method, x.2.2.method? = some method →
    AnsweredFor p live state'.1.edges x.1 x.2.1 x.2.2 method
  unchanged : state'.2 = false → state' = state

/-- After all calls were resolved for some types, each is answered for them; nothing was taken back,
and nothing changed when nothing was found anew. -/
theorem resolvePending_resolved (live : List TypeRef) (pending : List (Nat × Nat × Dispatch))
    (state : Rapid × Bool) :
    Ensures (fun _ => True) (Rapid.resolvePending p live pending state)
      (Resolved p live pending state) := by
  induction pending generalizing state with
  | nil => exact .pure ⟨Covers.refl _, by simp, fun _ => rfl⟩
  | cons x pending ih =>
    obtain ⟨caller, site, d⟩ := x
    unfold Rapid.resolvePending
    split
    · rename_i method hmethod
      refine (resolveCall_answers caller site d method live state).bind fun called hcall => ?_
      obtain ⟨hcovers, hanswered, hsame⟩ := hcall
      refine (ih called).mono fun state' h => ⟨h.covers.trans hcovers, ?_, fun hgrew => ?_⟩
      · refine List.forall_mem_cons.mpr ⟨fun method' hmethod' => ?_, h.answered⟩
        obtain rfl : method = method' := Option.some.inj (hmethod.symm.trans hmethod')
        exact hanswered.mono h.covers.edges
      · obtain rfl := h.unchanged hgrew
        exact hsame hgrew
    · rename_i hnone
      refine (ih state).mono fun state' h => ⟨h.covers, ?_, h.unchanged⟩
      refine List.forall_mem_cons.mpr ⟨fun method' hmethod' => ?_, h.answered⟩
      rw [hnone] at hmethod'
      cases hmethod'

/-! ## The last round -/

/-- No function waits after all were taken up. -/
theorem drain_worklist (s : Rapid) :
    Ensures (fun _ => True) (fun budget => drain p budget s) fun s' => s'.worklist = [] := by
  intro budget
  induction budget generalizing s with
  | zero =>
    obtain ⟨reachable, live, pending, edges, worklist⟩ := s
    cases worklist with
    | nil => rfl
    | cons f rest => trivial
  | succ budget ih =>
    obtain ⟨reachable, live, pending, edges, worklist⟩ := s
    cases worklist with
    | nil => rfl
    | cons f rest =>
      dsimp only
      unfold drain
      cases p.functions[f]? with
      | none => trivial
      | some function => exact ih _

/-- Rounds end when no function waits and all dynamic calls are answered for all live types. -/
theorem rounds_answered (bound : Nat) (s : Rapid) :
    Ensures (fun _ => True) (rounds p bound s) fun s' => s'.worklist = [] ∧ Answered p s' := by
  induction bound generalizing s with
  | zero => exact .throw trivial
  | succ bound ih =>
    unfold rounds
    refine (drain_worklist s).bind fun drained hdrained => ?_
    refine (resolvePending_resolved drained.live drained.pending (drained, false)).bind
      fun state hstate => ?_
    obtain ⟨s', grew⟩ := state
    cases grew with
    | true => exact ih s'
    | false =>
      cases hstate.unchanged rfl
      exact .pure ⟨hdrained, hstate.answered⟩

/-! ## The set that is found -/

/-- Finding the entries adds just these. -/
theorem adds_reachAll (entries : List Nat) (s : Rapid) :
    Adds ∅ ∅ ∅ {f | f ∈ entries} s (entries.foldl Rapid.reach s) := by
  simpa using Adds.foldl adds_reach entries s

/-- The entries are within every closed set that has them. -/
theorem within_entries (hc : ClosedFrom p entries covered) :
    Within p covered (entries.foldl Rapid.reach {}) := by
  have hempty : Within p covered {} := by constructor <;> simp
  exact hempty.adds (adds_reachAll entries {}) hc.entries (by simp) (by simp) (by simp)

/-- In the state with the entries alone, all functions found wait. -/
theorem expanded_entries (p : Program) (entries : List Nat) :
    Expanded p entries (entries.foldl Rapid.reach {}) where
  entries f hf := ((adds_reachAll entries {}).reachable f).mpr (.inr hf)
  taken c hc := .inl (((adds_reachAll entries {}).worklist c).mpr (.inr ⟨hc, by simp⟩))

/-- When no function waits, every function that was found was taken up. -/
theorem Expanded.takenUp (h : Expanded p entries s) (hw : s.worklist = []) :
    ∀ c ∈ s.reachable, TakenUp p s c := by
  intro c hc
  rcases h.taken c hc with hwait | htaken
  · rw [hw] at hwait
    cases hwait
  · exact htaken

/-- When no function waits and all dynamic calls are answered, the edges that the calls of the
functions found have are there. -/
theorem Expanded.mem_edges (h : Expanded p entries s) (hw : s.worklist = []) (hs : Answered p s)
    {e : Edge} (he : Follows p {c | c ∈ s.reachable} e) : e ∈ s.edges := by
  cases he with
  | direct hcaller hsite => exact (h.takenUp hw _ hcaller).edges _ _ hsite
  | @dynamic caller site callee d method t hcaller hsite hmethod hmade hadmits hcallee =>
    obtain ⟨c, hc, f, hf, ht⟩ := hmade
    obtain ⟨f', hf', hlive⟩ := (h.takenUp hw c hc).live
    obtain rfl : f' = f := Option.some.inj (hf'.symm.trans hf)
    have hpending := (h.takenUp hw _ hcaller).pending site d hsite (by rw [hmethod]; rfl)
    exact hs _ hpending method hmethod t (hlive t ht) hadmits callee hcallee

end

end Rapid

/-- What the analysis finds is closed, is in every closed set, and has the edges of its calls. -/
theorem buildRapid_least (p : Program) (entries : List Nat) :
    Ensures (fun _ => True) (buildRapid p entries) fun r =>
      ∃ covered, r.reachable = some covered ∧ covered.Pairwise (· < ·) ∧
        (∀ c ∈ covered, c < p.size) ∧
        IsLeast {fs : Set Nat | ClosedFrom p entries fs} {c | c ∈ covered} ∧
        ∀ e, e ∈ r.edges ↔ Follows p {c | c ∈ covered} e := by
  unfold buildRapid
  split
  · exact .throw trivial
  refine Ensures.get.bind fun budget _ => ?_
  have hwithin := (Rapid.kept_within p entries).rounds (budget + 1)
    fun covered hc => Rapid.within_entries hc
  have hexpanded := (Rapid.kept_expanded p entries).rounds (budget + 1)
    (Rapid.expanded_entries p entries)
  have hclosed := (Rapid.kept_closed p).rounds (budget + 1)
    (Rapid.closed_empty.reachAll entries)
  have hend := Rapid.rounds_answered (p := p) (budget + 1) (entries.foldl Rapid.reach {})
  refine ((hwithin.and hexpanded).and (hclosed.and hend)).bind fun s hs => .pure ?_
  obtain ⟨⟨hwithin, hexpanded⟩, hclosed, hw, hanswered⟩ := hs
  have hmem : ∀ e, Follows p {c | c ∈ s.reachable} e → e ∈ s.edges := fun e =>
    hexpanded.mem_edges hw hanswered
  have hfound : ClosedFrom p entries {c | c ∈ s.reachable} :=
    ⟨hexpanded.entries, fun e he => (hclosed.edges e (hmem e he)).2⟩
  refine ⟨s.reachable, rfl, hclosed.increasing, fun c hc => ?_, ⟨hfound, ?_⟩, fun e => ?_⟩
  · obtain ⟨f, hf, -⟩ := (hexpanded.takenUp hw c hc).live
    exact (List.getElem?_eq_some_iff.mp hf).1
  · exact fun covered hc => (hwithin covered hc).reachable
  · rw [List.mem_mergeSort]
    exact ⟨(hwithin _ hfound).edges e, hmem e⟩

/-- Whatever the number of steps: the functions that rapid type analysis reaches are the least set
that has the entries and that no call leads out of, in increasing order, and its edges are those
that the calls of this set have, in increasing order and none twice. -/
theorem rapid_least_fixpoint {p : Program} {entries : List Nat} {maxSteps : Nat} {r : Resolution}
    (h : construct p .rapid entries maxSteps = .ok r) :
    ∃ covered, r.reachable = some covered ∧ covered.Pairwise (· < ·) ∧
      (∀ c ∈ covered, c < p.size) ∧
      IsLeast {fs : Set Nat | ClosedFrom p entries fs} {c | c ∈ covered} ∧
      r.edges.Pairwise Edge.Lt ∧ ∀ e, e ∈ r.edges ↔ Follows p {c | c ∈ covered} e := by
  obtain ⟨covered, hcovered, hincreasing, hrange, hleast, hedges⟩ :=
    (buildRapid_least p entries).of_run (run_of_construct h)
  exact ⟨covered, hcovered, hincreasing, hrange, hleast, pairwise_edges h, hedges⟩

/-- A type becomes live only after a call that it answers was put off: the method of the first type
allocates the second. The third is allocated by a function that nothing calls. -/
def lateAnswer : Program :=
  let function (decl : FuncDecl) : Function :=
    { package := "m", packageName := "main", file := "a.go", decl }
  let speaker (name next : String) : Function :=
    function
      { name := "Speak", receiver := some ⟨none, name, false⟩
        body := { allocs := [⟨"m", next⟩] } }
  { modulePath := "m"
    functions := [
      function
        { name := "main"
          params := [⟨some "s", some ⟨"m", "Speaker"⟩⟩]
          body :=
            { calls := [⟨4, .method (.var "s") "Speak", []⟩]
              declared := [("d", ⟨"m", "Dog"⟩)] } },
      speaker "Bird" "Cat",
      speaker "Cat" "Dog",
      speaker "Dog" "Cat",
      function { name := "unused", body := { allocs := [⟨"m", "Bird"⟩] } }]
    types := [(⟨"m", "Speaker"⟩, .interface ["Speak"] []), (⟨"m", "Dog"⟩, .other),
      (⟨"m", "Cat"⟩, .other), (⟨"m", "Bird"⟩, .other)] }

/-- The case of a type that becomes live after the call it answers was put off. -/
theorem rapid_least_fixpoint_lateAnswer :
    construct lateAnswer .rapid [0] 20 =
      .ok { edges := [⟨0, 0, 2⟩, ⟨0, 0, 3⟩], reachable := some [0, 2, 3] } ∧
    IsLeast {fs : Set Nat | ClosedFrom lateAnswer [0] fs} {c | c ∈ [0, 2, 3]} ∧
    ∀ e, e ∈ ([⟨0, 0, 2⟩, ⟨0, 0, 3⟩] : List Edge) ↔ Follows lateAnswer {c | c ∈ [0, 2, 3]} e := by
  have hrun : construct lateAnswer .rapid [0] 20 =
      .ok { edges := [⟨0, 0, 2⟩, ⟨0, 0, 3⟩], reachable := some [0, 2, 3] } := by cbv
  obtain ⟨covered, hcovered, -, -, hleast, -, hedges⟩ := rapid_least_fixpoint hrun
  cases hcovered
  exact ⟨hrun, hleast, hedges⟩

end CallImpact
