import CallImpact.Construct.TypeFlow
import CallImpact.Proofs.Construct.Hierarchy
import CallImpact.Proofs.Facts.Numbering
import CallImpact.Proofs.Program.Dispatch

/-!
# Type flow analysis

The analysis keeps the direct calls and reaches no more than the type hierarchy does
(`buildTypeFlow_ensures`). Beside the budget, only facts that number their calls wrongly make it
fail (`Numbered`). How many steps it takes does not depend on the budget (`buildTypeFlow_settles`),
since a type arrives at each place only once (`FlowGraph.propagateType_settles`).
-/

namespace CallImpact

deriving instance ReflBEq, LawfulBEq for Slot

/-! ## Rows -/

/-- What is computed from each element of a list and its number by way of a value. -/
theorem exists_forall₂_of_zipIdx {α β γ : Type} {R : α × Nat → β → Prop} {f : β → Nat → γ}
    {xs : List α} {rows : List γ} {k : Nat}
    (h : List.Forall₂ (fun x row => ∃ b, row = f b x.2 ∧ R x b) (xs.zipIdx k) rows) :
    ∃ bs, rows = (bs.zipIdx k).map (fun x => f x.1 x.2) ∧ List.Forall₂ R (xs.zipIdx k) bs := by
  induction xs generalizing rows k with
  | nil =>
    cases h
    exact ⟨[], rfl, .nil⟩
  | cons x xs ih =>
    rw [List.zipIdx_cons] at h
    cases h with
    | cons hx hxs =>
      obtain ⟨b, rfl, hb⟩ := hx
      obtain ⟨bs, rfl, hbs⟩ := ih hxs
      exact ⟨b :: bs, rfl, .cons hb hbs⟩

/-- What holds of each element of a list alone, whatever its number. -/
theorem forall₂_of_zipIdx {α β : Type} {R : α → β → Prop} {xs : List α} {bs : List β}
    (h : List.Forall₂ (fun x b => R x.1 b) xs.zipIdx bs) : List.Forall₂ R xs bs := by
  have hfst : List.Forall₂ R (xs.zipIdx.map Prod.fst) bs := List.forall₂_map_left_iff.mpr h
  rwa [List.zipIdx_map_fst] at hfst

/-- Callees of a call that include the direct one, and only such that it has by the type
hierarchy. -/
def Between (p : Program) (d : Dispatch) (cs : List Nat) : Prop :=
  (directTargets d).Sublist cs ∧ cs.Sublist (hierarchyTargets p d)

/-! ## Flows -/

/-- Whether facts number their calls, unless numbers without a call are allowed. -/
def Numbered (allowed : Cause → Prop) (known : Prop) : Prop :=
  known ∨ ∀ length number, allowed (.outOfBounds length number)

/-- Facts that follow from numbered ones are numbered. -/
theorem Numbered.mono {allowed : Cause → Prop} {known known' : Prop} (h : Numbered allowed known)
    (himp : known → known') : Numbered allowed known' :=
  h.imp_left himp

namespace FlowGraph

section
variable {allowed : Cause → Prop} {p : Program} {number : Nat} {f : Function}
  {targets : List (List Nat)}

/-- Where a value comes from can always be said, unless it refers to a call that there is not. -/
theorem sources_settles {e : Expr} (h : Numbered allowed (e.Below targets.length)) :
    Settles allowed (sources p number f targets e) fun _ => True := by
  induction e with
  | var name => exact .pure trivial
  | field base name =>
    unfold sources
    split
    · exact .pure trivial
    · exact .pure trivial
    · exact .pure trivial
  | alloc type => exact .pure trivial
  | result site =>
    refine (Settles.element fun hle => ?_).bind fun _ _ => .pure trivial
    rcases h with hlt | hall
    · exact absurd hlt (Nat.not_lt.mpr hle)
    · exact hall _ _
  | assert value type ih => exact ih h
  | unknown => exact .pure trivial

/-- Flows can always be added, unless a value refers to a call that there is not. -/
theorem addFlows_settles {flows : List (Expr × Slot)} {g : FlowGraph}
    (h : Numbered allowed (∀ x ∈ flows, x.1.Below targets.length)) :
    Settles allowed (addFlows p number f targets flows g) fun _ => True := by
  induction flows generalizing g with
  | nil => exact .pure trivial
  | cons x flows ih =>
    have hx := h.mono fun hall => hall x List.mem_cons_self
    have hflows := h.mono fun hall y hy => hall y (List.mem_cons_of_mem x hy)
    exact (sources_settles hx).bind fun _ _ => ih hflows

/-- The values of a function that flow somewhere are values of its body. -/
theorem below_of_mem_localFlows {bound : Nat} (h : ∀ e ∈ f.decl.body.values, e.Below bound)
    {x : Expr × Slot} (hx : x ∈ localFlows p number f) : x.1.Below bound := by
  refine h x.1 ?_
  simp only [localFlows, List.mem_append, List.mem_filterMap, List.mem_map] at hx
  simp only [BodyFacts.values, List.mem_append, List.mem_map]
  rcases hx with (⟨store, hs, hx⟩ | ⟨init, hi, rfl⟩) | ⟨value, hv, rfl⟩
  · split at hx
    · cases hx
      exact .inl (.inl (.inr ⟨store, hs, rfl⟩))
    · cases hx
  · exact .inl (.inr ⟨init, hi, rfl⟩)
  · exact .inr hv

/-- What flows into a callee is an argument or the receiver. -/
theorem mem_values_of_mem_callFlows {callee : Nat} {g : Function} {site : CallSite}
    {x : Expr × Slot} (hx : x ∈ callFlows callee g site) : x.1 ∈ site.values := by
  unfold callFlows at hx
  rcases List.mem_append.mp hx with hx | hx
  · obtain ⟨⟨param, arg⟩, hzip, hx⟩ := List.mem_filterMap.mp hx
    obtain ⟨name, -, rfl⟩ := Option.map_eq_some_iff.mp hx
    have harg : arg ∈ site.args := (List.of_mem_zip hzip).2
    unfold CallSite.values
    split
    · exact List.mem_cons_of_mem _ harg
    · exact harg
    · exact harg
    · exact harg
  · unfold CallSite.values
    split at hx
    · rename_i hcallee _
      rw [List.mem_singleton] at hx
      rw [hcallee, hx]
      exact List.mem_cons_self
    · cases hx

/-- What flows into callees belongs to calls of the function. -/
theorem allCallFlows_settles (hin : ∀ callees ∈ targets, ∀ c ∈ callees, c < p.size) :
    Settles allowed (allCallFlows p f targets) fun flows =>
      ∀ x ∈ flows, ∃ site ∈ f.decl.body.calls, x.1 ∈ site.values := by
  have hsite : ∀ x ∈ f.decl.body.calls.zip targets,
      Settles allowed (x.2.mapM fun callee => do
        let g ← element p.functions callee
        return callFlows callee g x.1) fun flows =>
          ∀ l ∈ flows, ∀ y ∈ l, ∃ site ∈ f.decl.body.calls, y.1 ∈ site.values := by
    rintro ⟨site, callees⟩ hx
    obtain ⟨hs, hc⟩ := List.of_mem_zip hx
    refine .mapM_forall fun callee hcallee => ?_
    refine (Settles.element fun hle => ?_).bind fun g _ => .pure fun y hy => ?_
    · exact absurd (hin callees hc callee hcallee) (Nat.not_lt.mpr hle)
    · exact ⟨site, hs, mem_values_of_mem_callFlows hy⟩
  refine (Settles.mapM_forall hsite).bind fun flows hflows => .pure fun x hx => ?_
  obtain ⟨l, hl, hx⟩ := List.mem_flatten.mp hx
  obtain ⟨ls, hls, hl⟩ := List.mem_flatten.mp hl
  exact hflows ls hls l hl x hx

/-- The flows of a function can be added when its facts refer to calls that there are. -/
theorem addFunction_settles {g : FlowGraph} (hlen : targets.length = f.decl.body.calls.length)
    (hin : ∀ callees ∈ targets, ∀ c ∈ callees, c < p.size)
    (h : Numbered allowed f.decl.body.RefersToCalls) :
    Settles allowed (addFunction p number f targets g) fun _ => True := by
  unfold addFunction
  refine (addFlows_settles (h.mono fun hb x hx => ?_)).bind fun _ _ => ?_
  · obtain ⟨⟨name, value⟩, hmem, rfl⟩ := List.mem_map.mp hx
    exact hlen ▸ (BodyFacts.forall_mem_values.mp hb.values).1 _ hmem
  refine (addFlows_settles (h.mono fun hb x hx => ?_)).bind fun _ _ => ?_
  · exact hlen ▸ below_of_mem_localFlows hb.values hx
  refine (allCallFlows_settles hin).bind fun flows hflows => ?_
  refine addFlows_settles (h.mono fun hb x hx => ?_)
  obtain ⟨site, hs, hx⟩ := hflows x hx
  exact hlen ▸ hb.calls site hs x.1 hx

/-- The flows of functions can be added when their facts refer to calls that there are. -/
theorem addFunctions_settles {numbered : List ((Function × List (List Nat)) × Nat)} {g : FlowGraph}
    (h : ∀ x ∈ numbered, x.1.2.length = x.1.1.decl.body.calls.length ∧
      (∀ callees ∈ x.1.2, ∀ c ∈ callees, c < p.size) ∧
      Numbered allowed x.1.1.decl.body.RefersToCalls) :
    Settles allowed (addFunctions p numbered g) fun _ => True := by
  induction numbered generalizing g with
  | nil => exact .pure trivial
  | cons x numbered ih =>
    obtain ⟨hlen, hin, hnum⟩ := h x List.mem_cons_self
    refine Settles.tick.bind fun _ _ => (addFunction_settles hlen hin hnum).bind fun _ _ => ?_
    exact ih fun y hy => h y (List.mem_cons_of_mem x hy)

end

/-! ## Arrivals -/

/-- A successor is one that an edge leads to. -/
theorem mem_of_mem_successors {g : FlowGraph} {s target : Slot} (h : target ∈ g.successors s) :
    target ∈ g.edges.map (·.2) := by
  obtain ⟨edge, hedge, rfl⟩ := List.mem_map.mp h
  exact List.mem_map_of_mem (List.mem_filter.mp hedge).1

/-- A type arrives at places of a finite list only, and at each of them once. -/
theorem propagateType_settles (allowed : Cause → Prop) (g : FlowGraph) (t : TypeRef)
    (queue : List Slot) (known : Arrivals) :
    Settles allowed (fun budget => propagateType g t budget queue known) fun _ => True := by
  suffices hcost : ∃ n known',
      Costs (fun budget => propagateType g t budget queue known) n known' by
    obtain ⟨n, known', hcost⟩ := hcost
    exact ⟨n, .inl ⟨known', hcost, trivial⟩⟩
  -- the places at which the type may arrive: those that wait and those that edges lead to
  obtain ⟨places, hedges, hqueue⟩ : ∃ places : List Slot, g.edges.map (·.2) ⊆ places ∧
      queue ⊆ places :=
    ⟨queue ++ g.edges.map (·.2), List.subset_append_right _ _, List.subset_append_left _ _⟩
  -- a place that is new leaves fewer open, and one that is known shortens the queue
  generalize hopen : (places.map (·, t)).countP (fun x => decide (x ∉ known)) = missing
  induction missing using Nat.strongRecOn generalizing queue known with
  | ind missing ih =>
    induction queue with
    | nil => exact ⟨0, known, fun budget => by cases budget <;> rfl⟩
    | cons s queue ihq =>
      obtain ⟨hs, hqueue⟩ := List.cons_subset.mp hqueue
      by_cases hc : known.contains (s, t)
      · obtain ⟨n, known', hcost⟩ := ihq hqueue
        refine ⟨n + 1, known', hcost.step rfl fun budget => ?_⟩
        rw [propagateType, if_pos hc]
      · have hnew : (s, t) ∉ known := by simpa using hc
        have hless :
            (places.map (·, t)).countP (fun x => decide (x ∉ (s, t) :: known)) < missing := by
          rw [← hopen]
          convert countP_unseen_lt (List.mem_map_of_mem (f := (·, t)) hs) hnew
        have hnext : queue ++ g.successors s ⊆ places :=
          List.append_subset.mpr ⟨hqueue, fun x hx => hedges (mem_of_mem_successors hx)⟩
        obtain ⟨n, known', hcost⟩ :=
          ih _ hless (queue ++ g.successors s) ((s, t) :: known) hnext rfl
        refine ⟨n + 1, known', hcost.step rfl fun budget => ?_⟩
        rw [propagateType, if_neg hc]

/-- The types of all seeds arrive wherever they flow after some number of steps. -/
theorem propagate_settles (allowed : Cause → Prop) {g : FlowGraph} (seeds : List (Slot × TypeRef))
    (known : Arrivals) : Settles allowed (g.propagate seeds known) fun _ => True := by
  induction seeds generalizing known with
  | nil => exact .pure trivial
  | cons x seeds ih =>
    exact (propagateType_settles allowed g x.2 [x.1] known).bind fun known' _ => ih known'

/-! ## Callees -/

/-- The callees of a method call are found by its receiver. -/
theorem callees_of_method {p : Program} {arrivals : Arrivals} {number : Nat} {f : Function}
    {targets : List (List Nat)} {d : Dispatch} {site : CallSite} {all : List Nat} {receiver : Expr}
    {method name : String} (hd : d.method? = some method)
    (hcallee : site.callee = .method receiver name) :
    callees p arrivals number f targets d site all = (do
      let known ← sources p number f targets receiver
      if known.unmodelled && known.slots.isEmpty && known.types.isEmpty then return all
      else return methodsOf p ((typesOf arrivals known).filter (admits p d)) method) := by
  unfold callees
  rw [hcallee]
  cases d with
  | static callee => cases hd
  | external => cases hd
  | interface iface method' =>
    cases hd
    rfl
  | dynamic method' =>
    cases hd
    rfl

/-- Any other call has what it calls directly. -/
theorem callees_of_not_method {p : Program} {arrivals : Arrivals} {number : Nat} {f : Function}
    {targets : List (List Nat)} {d : Dispatch} {site : CallSite} {all : List Nat}
    (h : ¬ ∃ method receiver name, d.method? = some method ∧
      site.callee = .method receiver name) :
    callees p arrivals number f targets d site all = pure (directTargets d) := by
  unfold callees
  split
  · rfl
  · rfl
  · rename_i hcallee
    exact absurd ⟨_, _, _, rfl, hcallee⟩ h
  · rename_i hcallee
    exact absurd ⟨_, _, _, rfl, hcallee⟩ h
  · rfl
  · rfl

/-- A call keeps its direct callee, and reaches no more than it does by the type hierarchy. -/
theorem callees_settles {allowed : Cause → Prop} {p : Program} {arrivals : Arrivals} {number : Nat}
    {f : Function} {targets : List (List Nat)} {d : Dispatch} {site : CallSite}
    (h : Numbered allowed (∀ e ∈ site.values, e.Below targets.length)) :
    Settles allowed (callees p arrivals number f targets d site (hierarchyTargets p d))
      (Between p d) := by
  by_cases hkind : ∃ method receiver name, d.method? = some method ∧
      site.callee = .method receiver name
  · obtain ⟨method, receiver, name, hmethod, hcallee⟩ := hkind
    have hreceiver := h.mono fun hall => hall receiver (by simp [CallSite.values, hcallee])
    have hnone : ∀ cs, (directTargets d).Sublist cs := fun cs =>
      directTargets_of_method hmethod ▸ List.nil_sublist cs
    rw [callees_of_method hmethod hcallee]
    refine (sources_settles hreceiver).bind fun known _ => ?_
    split
    · exact .pure ⟨hnone _, List.Sublist.refl _⟩
    · refine .pure ⟨hnone _, ?_⟩
      exact methodsOf_sublist_hierarchyTargets hmethod fun t ht => (List.mem_filter.mp ht).2
  · rw [callees_of_not_method hkind]
    exact .pure ⟨List.Sublist.refl _, directTargets_sublist p d⟩

/-- Whatever a call costs, its callees are between the direct one and those of the type hierarchy.
-/
theorem callees_between {p : Program} {arrivals : Arrivals} {number : Nat} {f : Function}
    {targets : List (List Nat)} {d : Dispatch} {site : CallSite} :
    Ensures (fun _ => True) (callees p arrivals number f targets d site (hierarchyTargets p d))
      (Between p d) :=
  (callees_settles (.inr fun _ _ => trivial)).ensures trivial

end FlowGraph

/-! ## The construction -/

/-- The targets of a function's calls by the type hierarchy. -/
def targetsOf (p : Program) (f : Function) : List (List Nat) :=
  (p.dispatches f).map (hierarchyTargets p)

@[simp] theorem length_targetsOf (p : Program) (f : Function) :
    (targetsOf p f).length = f.decl.body.calls.length := by
  simp [targetsOf]

/-- The targets of a call of a program are functions of it. -/
theorem lt_size_of_mem_hierarchyTargets {p : Program} {f : Function} {number n : Nat}
    (h : n ∈ hierarchyTargets p (p.dispatch f number)) : n < p.size := by
  have hmethods : ∀ types method, n ∈ methodsOf p types method → n < p.size := by
    intro types method hn
    obtain ⟨t, -, ht⟩ := mem_methodsOf.mp hn
    exact Program.lt_size_of_lookupMethod? ht
  cases hd : p.dispatch f number with
  | static callee =>
    rw [hd, hierarchyTargets, List.mem_singleton] at h
    exact h ▸ Program.lt_size_of_dispatch hd
  | interface iface method => exact hmethods _ _ (hd ▸ h)
  | dynamic method => exact hmethods _ _ (hd ▸ h)
  | external =>
    rw [hd] at h
    cases h

/-- The targets of the calls of a function are functions of the program. -/
theorem lt_size_of_mem_targetsOf {p : Program} {f : Function} :
    ∀ callees ∈ targetsOf p f, ∀ c ∈ callees, c < p.size := by
  intro callees hcallees c hc
  obtain ⟨d, hd, rfl⟩ := List.mem_map.mp hcallees
  obtain ⟨number, rfl⟩ := Program.exists_dispatch_of_mem hd
  exact lt_size_of_mem_hierarchyTargets hc

/-- The functions of a program beside the targets of their calls. -/
theorem functions_zip_hierarchyTable (p : Program) :
    p.functions.zip (hierarchyTable p) = p.functions.map fun f => (f, targetsOf p f) := by
  rw [hierarchyTable_eq, dispatchTable, List.map_map]
  exact List.map_prod_left_eq_zip.symm

/-- A numbered function with its targets is the function of that number. -/
theorem getElem?_of_mem_numbered {p : Program} {x : (Function × List (List Nat)) × Nat}
    (hx : x ∈ (p.functions.map fun f => (f, targetsOf p f)).zipIdx) :
    p.functions[x.2]? = some x.1.1 ∧ x.1.2 = targetsOf p x.1.1 := by
  obtain ⟨⟨f, targets⟩, number⟩ := x
  rw [List.mem_zipIdx_iff_getElem?, List.getElem?_map, Option.map_eq_some_iff] at hx
  obtain ⟨f', hf', heq⟩ := hx
  cases heq
  exact ⟨hf', rfl⟩

/-- A table that keeps the direct callee of each call, and reaches no more than the type
hierarchy. -/
def Refines (p : Program) (table : List (List (List Nat))) : Prop :=
  List.Forall₂ (List.Forall₂ (Between p)) (dispatchTable p) table

/-- The callees that type flow finds for the calls of one function, from what it finds for each. -/
theorem functionCallees_settles {allowed : Cause → Prop} {p : Program}
    {arrivals : FlowGraph.Arrivals} {f : Function} {caller : Nat}
    {post : Dispatch → CallSite → List Nat → Prop}
    (hnumbered : Numbered allowed f.decl.body.RefersToCalls)
    (h : ∀ d call, d ∈ p.dispatches f → call ∈ f.decl.body.calls →
      Ensures (fun _ => True)
        (FlowGraph.callees p arrivals caller f (targetsOf p f) d call (hierarchyTargets p d))
        (post d call)) :
    Settles allowed
      (((p.dispatches f).zip (f.decl.body.calls.zip (targetsOf p f))).zipIdx.mapM fun x => do
        let cs ← FlowGraph.callees p arrivals caller f (targetsOf p f) x.1.1 x.1.2.1 x.1.2.2
        return edgesTo caller x.2 cs) fun rows =>
      ∃ sites, rows = sites.zipIdx.map (fun x => edgesTo caller x.2 x.1) ∧
        List.Forall₂ (fun x cs => post x.1 x.2 cs) ((p.dispatches f).zip f.decl.body.calls)
          sites := by
  have hsite : ∀ x ∈ ((p.dispatches f).zip (f.decl.body.calls.zip (targetsOf p f))).zipIdx,
      Settles allowed (do
        let cs ← FlowGraph.callees p arrivals caller f (targetsOf p f) x.1.1 x.1.2.1 x.1.2.2
        return edgesTo caller x.2 cs) fun row =>
          ∃ cs, row = edgesTo caller x.2 cs ∧ post x.1.1 x.1.2.1 cs := by
    rintro ⟨⟨d, call, all⟩, number⟩ hx
    obtain ⟨hd, hzip⟩ := List.getElem?_zip_eq_some.mp (List.mem_zipIdx_iff_getElem?.mp hx)
    obtain ⟨hcall, htargets⟩ := List.getElem?_zip_eq_some.mp hzip
    obtain rfl : all = hierarchyTargets p d := by
      simpa [targetsOf, hd, eq_comm] using htargets
    have hmem := List.mem_of_getElem? hcall
    have hsettles : Settles allowed
        (FlowGraph.callees p arrivals caller f (targetsOf p f) d call (hierarchyTargets p d))
        (Between p d) := FlowGraph.callees_settles <| hnumbered.mono fun hrefers e he =>
      length_targetsOf p f ▸ hrefers.calls call hmem e he
    exact (hsettles.ensured (h d call (List.mem_of_getElem? hd) hmem)).bind fun cs hcs =>
      .pure ⟨cs, rfl, hcs⟩
  refine (Settles.mapM hsite).mono fun rows hrows => ?_
  obtain ⟨sites, rfl, hsites⟩ := exists_forall₂_of_zipIdx
    (f := fun cs site => edgesTo caller site cs)
    (R := fun (x : (Dispatch × CallSite × List Nat) × Nat) cs => post x.1.1 x.1.2.1 cs) hrows
  refine ⟨sites, rfl, ?_⟩
  have hzip : ((p.dispatches f).zip (f.decl.body.calls.zip (targetsOf p f))).map
      (Prod.map id Prod.fst) = (p.dispatches f).zip f.decl.body.calls := by
    rw [← List.zip_map_right, List.map_fst_zip]
    simp [targetsOf]
  rw [← hzip, List.forall₂_map_left_iff]
  exact forall₂_of_zipIdx
    (R := fun (x : Dispatch × CallSite × List Nat) cs => post x.1 x.2.1 cs) hsites

/-- Whether the callees of each call in a table have a property, which may depend on the number of
the function. -/
def EachCall (p : Program) (post : Nat → Function → Dispatch → CallSite → List Nat → Prop)
    (table : List (List (List Nat))) : Prop :=
  List.Forall₂ (fun x sites => List.Forall₂ (fun y cs => post x.2 x.1 y.1 y.2 cs)
    ((p.dispatches x.1).zip x.1.decl.body.calls) sites) p.functions.zipIdx table

/-- The callees of a given call. -/
theorem EachCall.callees {p : Program}
    {post : Nat → Function → Dispatch → CallSite → List Nat → Prop}
    {table : List (List (List Nat))} (h : EachCall p post table) {caller site : Nat} {f : Function}
    {d : Dispatch} {call : CallSite} (hf : p.functions[caller]? = some f)
    (hd : (p.dispatches f)[site]? = some d) (hcall : f.decl.body.calls[site]? = some call) :
    ∃ sites cs, table[caller]? = some sites ∧ sites[site]? = some cs ∧ post caller f d call cs := by
  have hfun : p.functions.zipIdx[caller]? = some (f, caller) := by
    rw [List.getElem?_zipIdx, hf]
    simp
  have hzip : ((p.dispatches f).zip f.decl.body.calls)[site]? = some (d, call) :=
    List.getElem?_zip_eq_some.mpr ⟨hd, hcall⟩
  obtain ⟨hlt, hfun⟩ := List.getElem?_eq_some_iff.mp hfun
  have hrow := h.get hlt (h.length_eq ▸ hlt)
  rw [List.get_eq_getElem, hfun] at hrow
  obtain ⟨hlt', hzip⟩ := List.getElem?_eq_some_iff.mp hzip
  have hcell := hrow.get hlt' (hrow.length_eq ▸ hlt')
  rw [List.get_eq_getElem, hzip] at hcell
  exact ⟨_, _, List.getElem?_eq_getElem _, List.getElem?_eq_getElem _, hcell⟩

/-- What the analysis finds once the arrivals are known, from what it finds for each call. -/
theorem callTable_settles {allowed : Cause → Prop} {p : Program} {arrivals : FlowGraph.Arrivals}
    {post : Nat → Function → Dispatch → CallSite → List Nat → Prop}
    (hnumbered : ∀ f ∈ p.functions, Numbered allowed f.decl.body.RefersToCalls)
    (h : ∀ caller f d call, p.functions[caller]? = some f → d ∈ p.dispatches f →
      call ∈ f.decl.body.calls → Ensures (fun _ => True)
        (FlowGraph.callees p arrivals caller f (targetsOf p f) d call (hierarchyTargets p d))
        (post caller f d call)) :
    Settles allowed (do
      let edges ← (p.functions.map fun f => (f, targetsOf p f)).zipIdx.mapM
        fun ((f, targets), caller) =>
          ((p.dispatches f).zip (f.decl.body.calls.zip targets)).zipIdx.mapM
            fun ((d, call, all), site) => do
              return edgesTo caller site
                (← FlowGraph.callees p arrivals caller f targets d call all)
      return ({ edges := edges.flatten.flatten } : Resolution)) fun r =>
      ∃ table, r = { edges := edgesOf table } ∧ EachCall p post table := by
  have hfunction : ∀ x ∈ (p.functions.map fun f => (f, targetsOf p f)).zipIdx,
      Settles allowed
        (((p.dispatches x.1.1).zip (x.1.1.decl.body.calls.zip x.1.2)).zipIdx.mapM fun y => do
          let cs ← FlowGraph.callees p arrivals x.2 x.1.1 x.1.2 y.1.1 y.1.2.1 y.1.2.2
          return edgesTo x.2 y.2 cs) fun rows =>
        ∃ sites, rows = sites.zipIdx.map (fun y => edgesTo x.2 y.2 y.1) ∧
          List.Forall₂ (fun y cs => post x.2 x.1.1 y.1 y.2 cs)
            ((p.dispatches x.1.1).zip x.1.1.decl.body.calls) sites := by
    intro x hx
    obtain ⟨hf, htargets⟩ := getElem?_of_mem_numbered hx
    rw [htargets]
    exact functionCallees_settles (hnumbered _ (List.mem_of_getElem? hf)) fun d call hd hcall =>
      h x.2 x.1.1 d call hf hd hcall
  refine (Settles.mapM hfunction).bind fun edges hedges => .pure ?_
  obtain ⟨table, rfl, htable⟩ := exists_forall₂_of_zipIdx
    (f := fun sites caller => sites.zipIdx.map fun y => edgesTo caller y.2 y.1)
    (R := fun (x : (Function × List (List Nat)) × Nat) sites =>
      List.Forall₂ (fun y cs => post x.2 x.1.1 y.1 y.2 cs)
        ((p.dispatches x.1.1).zip x.1.1.decl.body.calls) sites) hedges
  refine ⟨table, ?_, ?_⟩
  · rw [edgesOf, List.flatMap_def, List.flatten_flatten, List.map_map]
    rfl
  · rw [List.zipIdx_map, List.forall₂_map_left_iff] at htable
    exact htable

/-- What the analysis finds, from what it finds for each call. How many steps it takes does not
depend on the budget, and only facts that number their calls wrongly make it fail. -/
theorem buildTypeFlow_settles {allowed : Cause → Prop} {p : Program}
    {post : Nat → Function → Dispatch → CallSite → List Nat → Prop}
    (hnumbered : ∀ f ∈ p.functions, Numbered allowed f.decl.body.RefersToCalls)
    (h : ∀ arrivals caller f d call, p.functions[caller]? = some f → d ∈ p.dispatches f →
      call ∈ f.decl.body.calls → Ensures (fun _ => True)
        (FlowGraph.callees p arrivals caller f (targetsOf p f) d call (hierarchyTargets p d))
        (post caller f d call)) :
    Settles allowed (buildTypeFlow p) fun r =>
      ∃ table, r = { edges := edgesOf table } ∧ EachCall p post table := by
  unfold buildTypeFlow
  simp only [functions_zip_hierarchyTable]
  refine (FlowGraph.addFunctions_settles fun x hx => ?_).bind fun graph _ => ?_
  · obtain ⟨hf, htargets⟩ := getElem?_of_mem_numbered hx
    rw [htargets]
    exact ⟨length_targetsOf p x.1.1, lt_size_of_mem_targetsOf,
      hnumbered _ (List.mem_of_getElem? hf)⟩
  refine (FlowGraph.propagate_settles allowed graph.seeds []).bind fun arrivals _ => ?_
  exact callTable_settles hnumbered (h arrivals)

/-- A table in which each call is between its direct callee and the type hierarchy. -/
theorem EachCall.refines {p : Program} {table : List (List (List Nat))}
    (h : EachCall p (fun _ _ d _ cs => Between p d cs) table) : Refines p table := by
  rw [Refines, dispatchTable, List.forall₂_map_left_iff]
  refine forall₂_of_zipIdx (h.imp fun x sites hsites => ?_)
  have hfst : ((p.dispatches x.1).zip x.1.decl.body.calls).map Prod.fst = p.dispatches x.1 := by
    rw [List.map_fst_zip]
    simp
  rw [← hfst, List.forall₂_map_left_iff]
  exact hsites

/-- The analysis keeps direct calls and reaches no more than the type hierarchy; beside the budget,
only facts that number their calls wrongly make it fail. -/
theorem buildTypeFlow_ensures (allowed : Cause → Prop) (hsteps : allowed .outOfSteps) (p : Program)
    (h : ∀ f ∈ p.functions, Numbered allowed f.decl.body.IsNumbered) :
    Ensures allowed (buildTypeFlow p) fun r =>
      ∃ table, r = { edges := edgesOf table } ∧ Refines p table := by
  have hrefers : ∀ f ∈ p.functions, Numbered allowed f.decl.body.RefersToCalls := fun f hf =>
    (h f hf).mono BodyFacts.IsNumbered.refersToCalls
  refine ((buildTypeFlow_settles hrefers fun _ _ _ _ _ _ _ _ =>
    FlowGraph.callees_between).ensures hsteps).mono fun r ⟨table, hr, htable⟩ => ?_
  exact ⟨table, hr, htable.refines⟩

/-- Type flow has a cost when facts refer to calls that there are. -/
theorem buildTypeFlow_costs {p : Program} (h : ∀ f ∈ p.functions, f.decl.body.RefersToCalls) :
    ∃ n r, Costs (buildTypeFlow p) n r :=
  (buildTypeFlow_settles (fun f hf => .inl (h f hf)) fun _ _ _ _ _ _ _ _ =>
    FlowGraph.callees_between).exists_costs

end CallImpact
