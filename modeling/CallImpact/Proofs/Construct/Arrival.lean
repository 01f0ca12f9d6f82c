import CallImpact.Proofs.Construct.Naming
import CallImpact.Proofs.Construct.Opacity
import Mathlib

/-!
# Type flow as reachability

The flow graph of a program has an edge from each place that a value reads to each place that the
value flows to, and a seed wherever an allocated or declared type starts
(`FlowGraph.IsFlowOf`). A type arrives at a place when a way of edges, possibly an empty one, leads
there from one of its seeds (`FlowGraph.Arrives`).

Seeds are followed one after the other over one table of arrivals, and a search stops wherever its
type is known already. Nothing is lost by this, on cycles either, because between two searches the
table is saturated: where the seeds before have led, they have led on as well
(`FlowGraph.Saturated`, `FlowGraph.propagate_exact`). So a dynamic call whose receiver is followed
calls just the methods of the types that arrive there or are allocated there, and any other keeps
the callees of the type hierarchy (`typeFlow_exact`).
-/

namespace CallImpact

/-! ## Flow -/

/-- Whether the value of an expression is a new value of a type. -/
def Expr.Allocates (t : TypeRef) : Expr → Prop
  | .alloc type => type = t
  | .assert value _ => value.Allocates t
  | .var _ | .field _ _ | .result _ | .unknown => False

/-- Whether the value of an expression is followed: it reads a place or is a new value. -/
def Expr.IsFollowed (p : Program) (number : Nat) (f : Function) (e : Expr) : Prop :=
  (∃ s, e.Reads p number f s) ∨ ∃ t, e.Allocates t

/-- Whether a value of a function flows from one place to another. -/
def Flows (p : Program) (source target : Slot) : Prop :=
  ∃ number f value, p.functions[number]? = some f ∧ FlowsTo p number f value target ∧
    value.Reads p number f source

/-- Whether a type starts at a place: a new value of it flows there, or a variable is declared with
it. A variable of an interface holds nothing from the start. -/
inductive Starts (p : Program) : Slot → TypeRef → Prop where
  | value {number : Nat} {f : Function} {value : Expr} {s : Slot} {t : TypeRef} :
      p.functions[number]? = some f → FlowsTo p number f value s → value.Allocates t → Starts p s t
  | declared {number : Nat} {f : Function} {name : String} {t : TypeRef} :
      p.functions[number]? = some f → (name, t) ∈ f.decl.body.declared → p.isInterface t = false →
      Starts p (.variable number name) t

namespace FlowGraph

/-- Whether a graph has just the flow of a program. -/
structure IsFlowOf (p : Program) (g : FlowGraph) : Prop where
  edges : ∀ source target, (source, target) ∈ g.edges ↔ Flows p source target
  seeds : ∀ s t, (s, t) ∈ g.seeds ↔ Starts p s t

/-- Whether a way of edges leads from one place to another. -/
abbrev LeadsTo (g : FlowGraph) : Slot → Slot → Prop :=
  Relation.ReflTransGen fun source target => (source, target) ∈ g.edges

/-- Whether a type arrives at a place: a way leads there from a seed of it. -/
def Arrives (g : FlowGraph) (t : TypeRef) (s : Slot) : Prop :=
  ∃ start, (start, t) ∈ g.seeds ∧ g.LeadsTo start s

/-! ## Arrivals -/

/-- Whether no type that is known at a place is missing where it flows from there. -/
def Saturated (g : FlowGraph) (known : Arrivals) : Prop :=
  ∀ s t target, (s, t) ∈ known → (s, target) ∈ g.edges → (target, t) ∈ known

/-- Whether only a type in the queue is missing where it flows. -/
def SaturatedBut (g : FlowGraph) (t : TypeRef) (queue : List Slot) (known : Arrivals) : Prop :=
  ∀ s u target, (s, u) ∈ known → (s, target) ∈ g.edges →
    (target, u) ∈ known ∨ u = t ∧ target ∈ queue

/-- The successors of a place are those that its edges lead to. -/
theorem mem_successors {g : FlowGraph} {s target : Slot} :
    target ∈ g.successors s ↔ (s, target) ∈ g.edges := by
  simp only [successors, List.mem_map, List.mem_filter, beq_iff_eq]
  constructor
  · rintro ⟨⟨_, _⟩, ⟨hmem, rfl⟩, rfl⟩
    exact hmem
  · exact fun hmem => ⟨(s, target), ⟨hmem, rfl⟩, rfl⟩

/-- Whether a type is known at a place, or a search for it from the places in a queue gets there. -/
def Found (g : FlowGraph) (t : TypeRef) (queue : List Slot) (known : Arrivals) (s : Slot)
    (u : TypeRef) : Prop :=
  (s, u) ∈ known ∨ u = t ∧ ∃ q ∈ queue, g.LeadsTo q s

section
variable {g : FlowGraph} {t : TypeRef} {q : Slot} {queue : List Slot} {known : Arrivals}

/-- A place at which the type is known need not be searched again: what lies behind it is known, or
lies behind what waits. -/
theorem SaturatedBut.found_iff_of_mem (h : g.SaturatedBut t (q :: queue) known)
    (hq : (q, t) ∈ known) (s : Slot) (u : TypeRef) :
    g.Found t (q :: queue) known s u ↔ g.Found t queue known s u := by
  -- along a way from the head, each place is known or lies behind what waits
  have hbehind : ∀ s, g.LeadsTo q s → (s, t) ∈ known ∨ ∃ q' ∈ queue, g.LeadsTo q' s := by
    intro s hleads
    induction hleads with
    | refl => exact .inl hq
    | tail _ hedge ih =>
      rcases ih with hmem | ⟨q', hq', hleads⟩
      · rcases h _ _ _ hmem hedge with hmem | ⟨-, hwait⟩
        · exact .inl hmem
        · rcases List.mem_cons.mp hwait with rfl | hwait
          · exact .inl hq
          · exact .inr ⟨_, hwait, .refl⟩
      · exact .inr ⟨q', hq', hleads.tail hedge⟩
  constructor
  · rintro (hs | ⟨rfl, q', hq', hleads⟩)
    · exact .inl hs
    · rcases List.mem_cons.mp hq' with rfl | hq'
      · exact (hbehind s hleads).imp id fun hwait => ⟨rfl, hwait⟩
      · exact .inr ⟨rfl, q', hq', hleads⟩
  · rintro (hs | ⟨rfl, q', hq', hleads⟩)
    · exact .inl hs
    · exact .inr ⟨rfl, q', List.mem_cons_of_mem q hq', hleads⟩

/-- A place at which the type has arrived before need not wait again. -/
theorem SaturatedBut.of_mem (h : g.SaturatedBut t (q :: queue) known) (hq : (q, t) ∈ known) :
    g.SaturatedBut t queue known := by
  intro s u target hs hedge
  rcases h s u target hs hedge with hmem | ⟨rfl, hwait⟩
  · exact .inl hmem
  · rcases List.mem_cons.mp hwait with rfl | hwait
    · exact .inl hq
    · exact .inr ⟨rfl, hwait⟩

/-- A place at which the type arrives is known from then on, and its successors wait. -/
theorem found_iff_successors (s : Slot) (u : TypeRef) :
    g.Found t (q :: queue) known s u ↔
      g.Found t (queue ++ g.successors q) ((q, t) :: known) s u := by
  have hhead : g.LeadsTo q s ↔ s = q ∨ ∃ q' ∈ g.successors q, g.LeadsTo q' s := by
    rw [LeadsTo, Relation.ReflTransGen.cases_head_iff, eq_comm]
    simp only [mem_successors]
  constructor
  · rintro (hs | ⟨rfl, q', hq', hleads⟩)
    · exact .inl (List.mem_cons_of_mem _ hs)
    · rcases List.mem_cons.mp hq' with rfl | hq'
      · rcases hhead.mp hleads with rfl | ⟨q', hq', hleads⟩
        · exact .inl List.mem_cons_self
        · exact .inr ⟨rfl, q', List.mem_append_right _ hq', hleads⟩
      · exact .inr ⟨rfl, q', List.mem_append_left _ hq', hleads⟩
  · rintro (hs | ⟨rfl, q', hq', hleads⟩)
    · rcases List.mem_cons.mp hs with heq | hs
      · cases heq
        exact .inr ⟨rfl, q, List.mem_cons_self, .refl⟩
      · exact .inl hs
    · rcases List.mem_append.mp hq' with hq' | hq'
      · exact .inr ⟨rfl, q', List.mem_cons_of_mem q hq', hleads⟩
      · exact .inr ⟨rfl, q, List.mem_cons_self, hhead.mpr (.inr ⟨q', hq', hleads⟩)⟩

/-- When a type arrives at the place that waits first, the successors of the place wait instead. -/
theorem SaturatedBut.arrived (h : g.SaturatedBut t (q :: queue) known) :
    g.SaturatedBut t (queue ++ g.successors q) ((q, t) :: known) := by
  intro s u target hs hedge
  rcases List.mem_cons.mp hs with heq | hs
  · cases heq
    exact .inr ⟨rfl, List.mem_append_right _ (mem_successors.mpr hedge)⟩
  · rcases h s u target hs hedge with hmem | ⟨rfl, hwait⟩
    · exact .inl (List.mem_cons_of_mem _ hmem)
    · rcases List.mem_cons.mp hwait with rfl | hwait
      · exact .inl List.mem_cons_self
      · exact .inr ⟨rfl, List.mem_append_left _ hwait⟩

/-- When no place waits, nothing is missing. -/
theorem saturatedBut_nil_iff : g.SaturatedBut t [] known ↔ g.Saturated known := by
  simp only [SaturatedBut, Saturated, List.not_mem_nil, and_false, or_false]

/-- A type arrives at the places in the queue and at all places behind them, and nothing else
arrives. -/
theorem propagateType_exact (h : g.SaturatedBut t queue known) :
    Ensures (fun _ => True) (fun budget => propagateType g t budget queue known) fun known' =>
      g.Saturated known' ∧ ∀ s u, (s, u) ∈ known' ↔ g.Found t queue known s u := by
  intro budget
  induction budget generalizing queue known with
  | zero =>
    cases queue with
    | nil => exact ⟨saturatedBut_nil_iff.mp h, fun s u => by simp [Found]⟩
    | cons q queue => trivial
  | succ budget ih =>
    cases queue with
    | nil => exact ⟨saturatedBut_nil_iff.mp h, fun s u => by simp [Found]⟩
    | cons q queue =>
      -- what is found at the end is the same before and after each step
      unfold propagateType
      by_cases hc : known.contains (q, t)
      · have hq : (q, t) ∈ known := by simpa using hc
        simp only [if_pos hc, h.found_iff_of_mem hq]
        exact ih (h.of_mem hq)
      · simp only [if_neg hc, found_iff_successors (q := q)]
        exact ih h.arrived

/-- The types of some seeds arrive wherever a way leads from one of them, beside what was known. -/
theorem propagate_exact {seeds : List (Slot × TypeRef)} (h : g.Saturated known) :
    Ensures (fun _ => True) (g.propagate seeds known) fun known' =>
      ∀ s t, (s, t) ∈ known' ↔
        (s, t) ∈ known ∨ ∃ start, (start, t) ∈ seeds ∧ g.LeadsTo start s := by
  induction seeds generalizing known with
  | nil => exact .pure (by simp)
  | cons seed seeds ih =>
    obtain ⟨first, u⟩ := seed
    have hbut : g.SaturatedBut u [first] known := fun s t target hs hedge =>
      .inl (h s t target hs hedge)
    refine (propagateType_exact hbut).bind fun known' hknown' => ?_
    refine (ih hknown'.1).mono fun known'' hknown'' s t => ?_
    rw [hknown'', hknown'.2]
    simp only [Found, List.mem_cons, Prod.mk.injEq, or_and_right, exists_or, exists_eq_left,
      List.not_mem_nil, or_false, and_assoc]
    tauto

end

/-! ## The flow graph -/

/-- Whether what is known of a value is just what it reads and allocates. -/
structure Collects (p : Program) (number : Nat) (f : Function) (e : Expr) (known : Sources) :
    Prop where
  slots : ∀ s, s ∈ known.slots ↔ e.Reads p number f s
  types : ∀ t, t ∈ known.types ↔ e.Allocates t
  unmodelled : known.slots = [] → known.types = [] → known.unmodelled

/-- Whether a graph has more edges and seeds than another: just the given ones. -/
structure Gains (edges : Set (Slot × Slot)) (seeds : Set (Slot × TypeRef)) (g g' : FlowGraph) :
    Prop where
  edges : ∀ x, x ∈ g'.edges ↔ x ∈ g.edges ∨ x ∈ edges
  seeds : ∀ x, x ∈ g'.seeds ↔ x ∈ g.seeds ∨ x ∈ seeds

section
variable {p : Program} {number : Nat} {f : Function} {g g' g'' : FlowGraph}
  {edges edges' : Set (Slot × Slot)} {seeds seeds' : Set (Slot × TypeRef)}

/-- What is known of the value of an expression is what the expression reads and allocates. -/
theorem sources_collects (p : Program) (number : Nat) (f : Function) (e : Expr) :
    Ensures (fun _ => True) (sources p number f (targetsOf p f) e) (Collects p number f e) := by
  induction e with
  | var name => exact .pure ⟨by simp [Expr.Reads], by simp [Expr.Allocates], by simp⟩
  | field base name =>
    unfold sources
    split
    · rename_i owner hnamed
      refine .pure ⟨fun s => ?_, by simp [Expr.Allocates], by simp⟩
      simp [Expr.Reads, hnamed]
    · rename_i hforeign
      exact .pure ⟨by simp [Expr.Reads, hforeign], by simp [Expr.Allocates], by simp⟩
    · rename_i hunknown
      exact .pure ⟨by simp [Expr.Reads, hunknown], by simp [Expr.Allocates], by simp⟩
  | alloc type => exact .pure ⟨by simp [Expr.Reads], by simp [Expr.Allocates, eq_comm], by simp⟩
  | result site =>
    refine (Ensures.element fun _ => trivial).bind fun callees hcallees => .pure ?_
    refine ⟨fun s => ?_, by simp [Expr.Allocates], by simp⟩
    simp [Expr.Reads, hcallees, eq_comm]
  | assert value type ih => exact ih.mono fun known h => ⟨h.slots, h.types, h.unmodelled⟩
  | unknown => exact .pure ⟨by simp [Expr.Reads], by simp [Expr.Allocates], by simp⟩

/-- An expression is followed unless all that is known of it is that part of it is not. -/
theorem Collects.isFollowed_iff {e : Expr} {known : Sources} (h : Collects p number f e known) :
    e.IsFollowed p number f ↔
      ¬ (known.unmodelled && known.slots.isEmpty && known.types.isEmpty) := by
  simp only [Expr.IsFollowed, ← h.slots, ← h.types, Bool.and_eq_true, List.isEmpty_iff]
  constructor
  · rintro (⟨s, hs⟩ | ⟨t, ht⟩) ⟨⟨-, hslots⟩, htypes⟩
    · exact List.ne_nil_of_mem hs hslots
    · exact List.ne_nil_of_mem ht htypes
  · intro hnot
    by_contra hnone
    rw [not_or, not_exists, not_exists] at hnone
    have hslots : known.slots = [] := List.eq_nil_iff_forall_not_mem.mpr hnone.1
    have htypes : known.types = [] := List.eq_nil_iff_forall_not_mem.mpr hnone.2
    exact hnot ⟨⟨h.unmodelled hslots htypes, hslots⟩, htypes⟩

/-- What two changes in a row add is what both add. -/
theorem Gains.trans (h : Gains edges seeds g g') (h' : Gains edges' seeds' g' g'') :
    Gains (edges ∪ edges') (seeds ∪ seeds') g g'' where
  edges x := by rw [h'.edges, h.edges, or_assoc, Set.mem_union]
  seeds x := by rw [h'.seeds, h.seeds, or_assoc, Set.mem_union]

/-- An edge is added to those that were there. -/
theorem mem_edges_addEdge {source target : Slot} {x : Slot × Slot} :
    x ∈ (g.addEdge source target).edges ↔ x ∈ g.edges ∨ x = (source, target) := by
  unfold addEdge
  split
  · rename_i hc
    have hmem : (source, target) ∈ g.edges := by simpa using hc
    exact ⟨.inl, fun h => h.elim id fun heq => heq ▸ hmem⟩
  · simp

/-- An edge starts no types. -/
theorem seeds_addEdge (source target : Slot) : (g.addEdge source target).seeds = g.seeds := by
  unfold addEdge
  split
  · rfl
  · rfl

/-- Letting a value flow to a place adds an edge from each place that the value reads, and starts
each type that it allocates. -/
theorem gains_flow (g : FlowGraph) (known : Sources) (target : Slot) :
    Gains {x | x.1 ∈ known.slots ∧ x.2 = target} {x | x.1 = target ∧ x.2 ∈ known.types} g
      (g.flow known target) := by
  have hfold : ∀ (slots : List Slot) (g : FlowGraph),
      Gains {x | x.1 ∈ slots ∧ x.2 = target} ∅ g
        (slots.foldl (fun g source => g.addEdge source target) g) := by
    intro slots
    induction slots with
    | nil => exact fun g => ⟨by simp, by simp⟩
    | cons source slots ih =>
      intro g
      refine ⟨fun ⟨s, s'⟩ => ?_, fun x => ?_⟩
      · rw [List.foldl_cons, (ih _).edges, mem_edges_addEdge]
        simp only [Set.mem_ofPred_eq, Prod.mk.injEq, List.mem_cons]
        tauto
      · rw [List.foldl_cons, (ih _).seeds, seeds_addEdge]
  refine ⟨(hfold known.slots g).edges, fun ⟨s, t⟩ => ?_⟩
  rw [flow, List.mem_append, (hfold known.slots g).seeds]
  simp [eq_comm, and_comm]

/-- The edges that the flow of values to places has. -/
def flowEdges (p : Program) (number : Nat) (f : Function) (flows : Set (Expr × Slot)) :
    Set (Slot × Slot) :=
  {x | ∃ value, (value, x.2) ∈ flows ∧ value.Reads p number f x.1}

/-- The seeds that the flow of values to places has. -/
def flowSeeds (flows : Set (Expr × Slot)) : Set (Slot × TypeRef) :=
  {x | ∃ value, (value, x.1) ∈ flows ∧ value.Allocates x.2}

/-- Adding flows of values adds the edges and seeds of just these flows. -/
theorem addFlows_gains (flows : List (Expr × Slot)) (g : FlowGraph) :
    Ensures (fun _ => True) (addFlows p number f (targetsOf p f) flows g)
      (Gains (flowEdges p number f {x | x ∈ flows}) (flowSeeds {x | x ∈ flows}) g) := by
  induction flows generalizing g with
  | nil => exact .pure ⟨by simp [flowEdges], by simp [flowSeeds]⟩
  | cons x flows ih =>
    obtain ⟨value, target⟩ := x
    refine (sources_collects p number f value).bind fun known hknown => ?_
    refine (ih (g.flow known target)).mono fun g' hg' => ?_
    have hall := (gains_flow g known target).trans hg'
    refine ⟨fun x => ?_, fun x => ?_⟩
    · rw [hall.edges]
      refine or_congr_right ⟨?_, ?_⟩
      · rintro (⟨hslot, htarget⟩ | ⟨value', hmem, hreads⟩)
        · exact ⟨value, by simp [htarget], (hknown.slots _).mp hslot⟩
        · exact ⟨value', List.mem_cons_of_mem _ hmem, hreads⟩
      · rintro ⟨value', hmem, hreads⟩
        rcases List.mem_cons.mp hmem with heq | hmem
        · cases heq
          exact .inl ⟨(hknown.slots _).mpr hreads, rfl⟩
        · exact .inr ⟨value', hmem, hreads⟩
    · rw [hall.seeds]
      refine or_congr_right ⟨?_, ?_⟩
      · rintro (⟨htarget, htype⟩ | ⟨value', hmem, hallocates⟩)
        · exact ⟨value, by simp [htarget], (hknown.types _).mp htype⟩
        · exact ⟨value', List.mem_cons_of_mem _ hmem, hallocates⟩
      · rintro ⟨value', hmem, hallocates⟩
        rcases List.mem_cons.mp hmem with heq | hmem
        · cases heq
          exact .inl ⟨rfl, (hknown.types _).mpr hallocates⟩
        · exact .inr ⟨value', hmem, hallocates⟩

/-- Seeds that are appended are what is gained. -/
theorem Gains.seeded (g : FlowGraph) (seeds : List (Slot × TypeRef)) :
    Gains ∅ {x | x ∈ seeds} g { g with seeds := g.seeds ++ seeds } :=
  ⟨by simp, by simp⟩

/-- The edges of two sets of flows are those of the one and of the other. -/
theorem flowEdges_union (flows flows' : Set (Expr × Slot)) :
    flowEdges p number f (flows ∪ flows') =
      flowEdges p number f flows ∪ flowEdges p number f flows' := by
  ext x
  simp only [flowEdges, Set.mem_union, Set.mem_ofPred_eq, or_and_right, exists_or]

/-- The seeds of two sets of flows are those of the one and of the other. -/
theorem flowSeeds_union (flows flows' : Set (Expr × Slot)) :
    flowSeeds (flows ∪ flows') = flowSeeds flows ∪ flowSeeds flows' := by
  ext x
  simp only [flowSeeds, Set.mem_union, Set.mem_ofPred_eq, or_and_right, exists_or]

/-! ### Functions -/

/-- Whether a value flows to a place by a call: as an argument or as the receiver. -/
def IsCallFlow (p : Program) (f : Function) (x : Expr × Slot) : Prop :=
  ∃ y ∈ f.decl.body.calls.zip (targetsOf p f), ∃ callee ∈ y.2, ∃ g,
    p.functions[callee]? = some g ∧ x ∈ callFlows callee g y.1

/-- The flows of all calls of a function are those to the callees that the type hierarchy gives. -/
theorem allCallFlows_exact (p : Program) (f : Function) :
    Ensures (fun _ => True) (allCallFlows p f (targetsOf p f)) fun flows =>
      ∀ x, x ∈ flows ↔ IsCallFlow p f x := by
  have hsite : ∀ y : CallSite × List Nat, Ensures (fun _ => True)
      (y.2.mapM fun callee => do
        let g ← element p.functions callee
        return callFlows callee g y.1) fun rows => ∀ x, x ∈ rows.flatten ↔
          ∃ callee ∈ y.2, ∃ g, p.functions[callee]? = some g ∧ x ∈ callFlows callee g y.1 := by
    refine fun y => .mapM_flatten fun callee _ => ?_
    refine (Ensures.element fun _ => trivial).bind fun g hg => .pure fun x => ?_
    simp [hg]
  refine (Ensures.mapM fun y _ => hsite y).bind fun rows hrows => .pure fun x => ?_
  rw [List.flatten_flatten]
  exact mem_flatten_of_forall₂ (List.forall₂_map_right_iff.mpr hrows) x

/-- Where a value flows directly: by an assignment, within the function, or by a call. -/
theorem flowsTo_iff {value : Expr} {s : Slot} :
    FlowsTo p number f value s ↔
      (value, s) ∈ f.decl.body.assigns.map (fun (name, e) => (e, Slot.variable number name)) ∨
      (value, s) ∈ localFlows p number f ∨ IsCallFlow p f (value, s) := by
  constructor
  · rintro (hassign | hlocal | ⟨hcall, hcallees, hcallee, hg, hflow⟩)
    · exact .inl (List.mem_map.mpr ⟨_, hassign, rfl⟩)
    · exact .inr (.inl hlocal)
    · have hzip : (_, _) ∈ f.decl.body.calls.zip (targetsOf p f) :=
        List.mem_of_getElem? (List.getElem?_zip_eq_some.mpr ⟨hcall, hcallees⟩)
      exact .inr (.inr ⟨_, hzip, _, hcallee, _, hg, hflow⟩)
  · rintro (hassign | hlocal | ⟨⟨call, callees⟩, hzip, callee, hcallee, g, hg, hflow⟩)
    · obtain ⟨⟨name, value⟩, hmem, heq⟩ := List.mem_map.mp hassign
      cases heq
      exact .assign hmem
    · exact .store hlocal
    · obtain ⟨site, hsite⟩ := List.mem_iff_getElem?.mp hzip
      obtain ⟨hcall, hcallees⟩ := List.getElem?_zip_eq_some.mp hsite
      exact .call hcall hcallees hcallee hg hflow

/-- A function adds the edges and the seeds of all its flows, and those of its variables. -/
theorem addFunction_gains (g : FlowGraph) :
    Ensures (fun _ => True) (addFunction p number f (targetsOf p f) g)
      (Gains (flowEdges p number f {x | FlowsTo p number f x.1 x.2})
        (flowSeeds {x | FlowsTo p number f x.1 x.2} ∪ {x | x ∈ declaredSeeds p number f}) g) := by
  have hflows : {x : Expr × Slot | FlowsTo p number f x.1 x.2} =
      {x | x ∈ f.decl.body.assigns.map fun (name, e) => (e, Slot.variable number name)} ∪
        ({x | x ∈ localFlows p number f} ∪ {x | IsCallFlow p f x}) :=
    Set.ext fun x => flowsTo_iff
  unfold addFunction
  refine (addFlows_gains _ g).bind fun g₁ h₁ => ?_
  have hseeded := h₁.trans (.seeded g₁ (declaredSeeds p number f))
  refine (addFlows_gains _ _).bind fun g₂ h₂ => ?_
  refine (allCallFlows_exact p f).bind fun flows hcalls => ?_
  refine (addFlows_gains flows g₂).mono fun g₃ h₃ => ?_
  have hall := (hseeded.trans h₂).trans h₃
  rw [show {x | x ∈ flows} = {x | IsCallFlow p f x} from Set.ext hcalls] at hall
  rw [hflows, flowEdges_union, flowEdges_union, flowSeeds_union, flowSeeds_union]
  refine ⟨fun x => ?_, fun x => ?_⟩
  · rw [hall.edges, Set.union_empty, Set.union_assoc]
  · rw [hall.seeds, Set.union_assoc, Set.union_assoc, Set.union_assoc, Set.union_assoc,
      Set.union_comm {x | x ∈ declaredSeeds p number f}, Set.union_assoc]

/-- Adding functions adds the edges and the seeds of the flows of each of them. -/
theorem addFunctions_gains {numbered : List ((Function × List (List Nat)) × Nat)} (g : FlowGraph)
    (h : ∀ y ∈ numbered, y.1.2 = targetsOf p y.1.1) :
    Ensures (fun _ => True) (addFunctions p numbered g)
      (Gains {x | ∃ y ∈ numbered, x ∈ flowEdges p y.2 y.1.1 {x | FlowsTo p y.2 y.1.1 x.1 x.2}}
        {x | ∃ y ∈ numbered, x ∈ flowSeeds {x | FlowsTo p y.2 y.1.1 x.1 x.2} ∪
          {x | x ∈ declaredSeeds p y.2 y.1.1}} g) := by
  induction numbered generalizing g with
  | nil => exact .pure ⟨by simp, by simp⟩
  | cons y numbered ih =>
    obtain ⟨⟨f, targets⟩, number⟩ := y
    obtain ⟨hy, hnumbered⟩ := List.forall_mem_cons.mp h
    obtain rfl : targets = targetsOf p f := hy
    refine (Ensures.tick trivial).bind fun _ _ => (addFunction_gains g).bind fun g' hg' => ?_
    refine (ih g' hnumbered).mono fun g'' hg'' => ?_
    have hall := hg'.trans hg''
    refine ⟨fun x => ?_, fun x => ?_⟩
    · rw [hall.edges]
      simp only [Set.mem_union, Set.mem_ofPred_eq, List.exists_mem_cons_iff]
    · rw [hall.seeds]
      simp only [Set.mem_union, Set.mem_ofPred_eq, List.exists_mem_cons_iff]

/-- Declared variables start with their types unless these are interfaces. -/
theorem mem_declaredSeeds {s : Slot} {t : TypeRef} :
    (s, t) ∈ declaredSeeds p number f ↔
      ∃ name, (name, t) ∈ f.decl.body.declared ∧ p.isInterface t = false ∧
        s = .variable number name := by
  simp only [declaredSeeds, List.mem_map, List.mem_filter, Prod.exists, Bool.not_eq_true',
    Prod.mk.injEq]
  constructor
  · rintro ⟨name, _, ⟨hmem, hconcrete⟩, rfl, rfl⟩
    exact ⟨name, hmem, hconcrete, rfl⟩
  · rintro ⟨name, hmem, hconcrete, rfl⟩
    exact ⟨name, t, ⟨hmem, hconcrete⟩, rfl, rfl⟩

/-- The graph that a program is given has just its flow. -/
theorem addFunctions_isFlowOf (p : Program) :
    Ensures (fun _ => True)
      (addFunctions p (p.functions.map fun f => (f, targetsOf p f)).zipIdx {}) (IsFlowOf p) := by
  have hnumbered : ∀ number f, (p.functions[number]? = some f ↔
      ((f, targetsOf p f), number) ∈ (p.functions.map fun f => (f, targetsOf p f)).zipIdx) := by
    intro number f
    simp [List.mem_zipIdx_iff_getElem?]
  refine (addFunctions_gains {} fun y hy => (getElem?_of_mem_numbered hy).2).mono fun g hg => ?_
  constructor
  · intro source target
    rw [hg.edges]
    constructor
    · rintro (hnone | ⟨y, hy, value, hflow, hreads⟩)
      · cases hnone
      · exact ⟨y.2, y.1.1, value, (getElem?_of_mem_numbered hy).1, hflow, hreads⟩
    · rintro ⟨number, f, value, hf, hflow, hreads⟩
      exact .inr ⟨_, (hnumbered number f).mp hf, value, hflow, hreads⟩
  · intro s t
    rw [hg.seeds]
    constructor
    · rintro (hnone | ⟨y, hy, ⟨value, hflow, hallocates⟩ | hdeclared⟩)
      · cases hnone
      · exact .value (getElem?_of_mem_numbered hy).1 hflow hallocates
      · obtain ⟨name, hmem, hconcrete, rfl⟩ := mem_declaredSeeds.mp hdeclared
        exact .declared (getElem?_of_mem_numbered hy).1 hmem hconcrete
    · rintro (⟨hf, hflow, hallocates⟩ | ⟨hf, hmem, hconcrete⟩)
      · exact .inr ⟨_, (hnumbered _ _).mp hf, .inl ⟨_, hflow, hallocates⟩⟩
      · refine .inr ⟨_, (hnumbered _ _).mp hf, .inr ?_⟩
        exact mem_declaredSeeds.mpr ⟨_, hmem, hconcrete, rfl⟩

/-! ## Callees -/

/-- A value can have the types that it allocates and those that arrive at a place that it reads. -/
theorem mem_typesOf {arrivals : Arrivals} {known : Sources} {t : TypeRef} :
    t ∈ typesOf arrivals known ↔ t ∈ known.types ∨ ∃ s ∈ known.slots, (s, t) ∈ arrivals := by
  simp [typesOf, and_comm]

/-- Whether callees of a method call are what some arrivals give: the methods of the types that the
receiver can have when it is followed, and all that were given otherwise. -/
structure IsAnswer (p : Program) (arrivals : Arrivals) (number : Nat) (f : Function) (d : Dispatch)
    (method : String) (receiver : Expr) (all cs : List Nat) : Prop where
  followed : receiver.IsFollowed p number f → ∀ callee, callee ∈ cs ↔ ∃ t, admits p d t ∧
    p.lookupMethod? t method = some callee ∧
      (receiver.Allocates t ∨ ∃ s, receiver.Reads p number f s ∧ (s, t) ∈ arrivals)
  unfollowed : ¬ receiver.IsFollowed p number f → cs = all

/-- Whether a call has the callees that some arrivals give, if it is dynamic. -/
def Answers (p : Program) (arrivals : Arrivals) (number : Nat) (f : Function) (d : Dispatch)
    (call : CallSite) (cs : List Nat) : Prop :=
  ∀ receiver method, d.method? = some method → call.callee = .method receiver method →
    IsAnswer p arrivals number f d method receiver (hierarchyTargets p d) cs

/-- The callees of a dynamic call are those that the arrivals give. -/
theorem callees_answers (p : Program) (arrivals : Arrivals) (number : Nat) (f : Function)
    (d : Dispatch) (call : CallSite) :
    Ensures (fun _ => True)
      (callees p arrivals number f (targetsOf p f) d call (hierarchyTargets p d))
      (Answers p arrivals number f d call) := by
  refine .all fun receiver => .all fun method => .all fun hd => .all fun hcallee => ?_
  rw [callees_of_method hd hcallee]
  refine (sources_collects p number f receiver).bind fun known hknown => ?_
  split
  · rename_i hnone
    exact .pure ⟨fun h => absurd hnone (hknown.isFollowed_iff.mp h), fun _ => rfl⟩
  · rename_i hsome
    have hfollowed := hknown.isFollowed_iff.mpr hsome
    refine .pure ⟨fun _ callee => ?_, fun h => absurd hfollowed h⟩
    simp only [mem_methodsOf, List.mem_filter, mem_typesOf, hknown.slots, hknown.types]
    constructor
    · rintro ⟨t, ⟨hsource, hadmits⟩, hlookup⟩
      exact ⟨t, hadmits, hlookup, hsource⟩
    · rintro ⟨t, hadmits, hlookup, hsource⟩
      exact ⟨t, ⟨hsource, hadmits⟩, hlookup⟩

end

/-- Whether a graph and its arrivals are those from which type flow finds the callees, when it is
given some steps. -/
def IsMadeFor (p : Program) (maxSteps : Nat) (g : FlowGraph) (arrivals : Arrivals) : Prop :=
  ∃ left rest,
    addFunctions p (p.functions.zip (hierarchyTable p)).zipIdx {} maxSteps = .ok (g, left) ∧
      g.propagate g.seeds [] left = .ok (arrivals, rest)

end FlowGraph

/-! ## The construction -/

/-- The callees of a call. -/
def Resolution.calleesAt (r : Resolution) (caller site : Nat) : List Nat :=
  (r.edges.filter fun e => e.caller == caller && e.site == site).map (·.callee)

section
variable {p : Program} {r : Resolution} {caller site : Nat}

/-- The callees of a call are those of its edges. -/
theorem mem_calleesAt {callee : Nat} :
    callee ∈ r.calleesAt caller site ↔ ⟨caller, site, callee⟩ ∈ r.edges := by
  simp only [Resolution.calleesAt, List.mem_map, List.mem_filter, Bool.and_eq_true, beq_iff_eq]
  constructor
  · rintro ⟨⟨_, _, _⟩, ⟨hmem, rfl, rfl⟩, rfl⟩
    exact hmem
  · exact fun hmem => ⟨_, ⟨hmem, rfl, rfl⟩, rfl⟩

/-- Edges in order have the callees of a call in order. -/
theorem pairwise_calleesAt (h : r.edges.Pairwise Edge.Lt) :
    (r.calleesAt caller site).Pairwise (· < ·) := by
  refine List.pairwise_map.mpr ((h.filter _).imp_of_mem fun {e e'} he he' hlt => ?_)
  have hfrom := (List.mem_filter.mp he).2
  have hfrom' := (List.mem_filter.mp he').2
  simp only [Bool.and_eq_true, beq_iff_eq] at hfrom hfrom'
  unfold Edge.Lt at hlt
  omega

/-- When edges come from a table, the callees of a call are those in its cell. -/
theorem mem_calleesAt_edgesOf {table : List (List (List Nat))} {sites : List (List Nat)}
    {cs : List Nat} {callee : Nat} (hr : r.edges = edgesOf table)
    (hsites : table[caller]? = some sites) (hcs : sites[site]? = some cs) :
    callee ∈ r.calleesAt caller site ↔ callee ∈ cs := by
  rw [mem_calleesAt, hr, mem_edgesOf_of_getElem? hsites hcs]

/-- By the type hierarchy a call has all its targets. -/
theorem calleesAt_hierarchy {entries : List Nat} {maxSteps : Nat} {f : Function} {d : Dispatch}
    (h : construct p .hierarchy entries maxSteps = .ok r) (hf : p.functions[caller]? = some f)
    (hd : (p.dispatches f)[site]? = some d) : r.calleesAt caller site = hierarchyTargets p d := by
  refine (pairwise_calleesAt (pairwise_edges h)).eq_of_mem_iff (pairwise_hierarchyTargets p d)
    fun callee => ?_
  rw [mem_calleesAt, mem_edges_hierarchy h hf hd]

/-- A run of type flow goes through the flow graph of the program and the types that arrive in it,
and answers each call by them. -/
theorem typeFlow_stages {entries : List Nat} {maxSteps : Nat}
    (h : construct p .typeFlow entries maxSteps = .ok r) :
    ∃ g arrivals, FlowGraph.IsMadeFor p maxSteps g arrivals ∧ g.IsFlowOf p ∧
      (∀ s t, (s, t) ∈ arrivals ↔ g.Arrives t s) ∧
      ∃ table, r.edges = edgesOf table ∧ EachCall p (FlowGraph.Answers p arrivals) table := by
  obtain ⟨rest, hrun⟩ := Budgeted.exists_of_run (run_of_construct h)
  simp only [construction, buildTypeFlow] at hrun
  obtain ⟨g, left, hg, hrun⟩ := Budgeted.of_bind_ok hrun
  obtain ⟨arrivals, left', harrivals, hrun⟩ := Budgeted.of_bind_ok hrun
  have hflow : g.IsFlowOf p :=
    (FlowGraph.addFunctions_isFlowOf p).of_ok (functions_zip_hierarchyTable p ▸ hg)
  have hexact : ∀ s t, (s, t) ∈ arrivals ↔ g.Arrives t s := by
    have hnone : g.Saturated [] := fun s t target hs => absurd hs List.not_mem_nil
    simpa [FlowGraph.Arrives] using (FlowGraph.propagate_exact hnone).of_ok harrivals
  refine ⟨g, arrivals, ⟨left, left', hg, harrivals⟩, hflow, hexact, ?_⟩
  rw [functions_zip_hierarchyTable] at hrun
  have hcalls := @callTable_settles (fun _ => True) p arrivals _
    (fun _ _ => .inr fun _ _ => trivial)
    fun caller f d call _ _ _ => FlowGraph.callees_answers p arrivals caller f d call
  obtain ⟨table, hr, htable⟩ := (hcalls.ensures trivial).of_ok hrun
  exact ⟨table, congrArg _ hr, htable⟩

end

/-- Whether a type is one that a receiver in a function can have: it is allocated there, or arrives
at a place that the receiver reads. -/
def FlowGraph.Receives (g : FlowGraph) (p : Program) (number : Nat) (f : Function) (receiver : Expr)
    (t : TypeRef) : Prop :=
  receiver.Allocates t ∨ ∃ s, receiver.Reads p number f s ∧ g.Arrives t s

/-- Whenever type flow works out, it has found at each place the types that arrive there in the flow
graph of the program. A dynamic call whose receiver is followed has just the methods of the types
that the receiver can have, in order; any other has the callees of the type hierarchy. -/
theorem typeFlow_exact {p : Program} {entries : List Nat} {maxSteps : Nat} {r : Resolution}
    (h : construct p .typeFlow entries maxSteps = .ok r) :
    ∃ g arrivals, FlowGraph.IsMadeFor p maxSteps g arrivals ∧ g.IsFlowOf p ∧
      (∀ s t, (s, t) ∈ arrivals ↔ g.Arrives t s) ∧
      ∀ caller site f d method, p.functions[caller]? = some f →
        (p.dispatches f)[site]? = some d → d.method? = some method →
        ∃ call receiver, f.decl.body.calls[site]? = some call ∧
          call.callee = .method receiver method ∧
          (receiver.IsFollowed p caller f → (r.calleesAt caller site).Pairwise (· < ·) ∧
            ∀ callee, callee ∈ r.calleesAt caller site ↔ ∃ t, admits p d t ∧
              p.lookupMethod? t method = some callee ∧ g.Receives p caller f receiver t) ∧
          (¬ receiver.IsFollowed p caller f → r.calleesAt caller site = hierarchyTargets p d ∧
            ∀ entries' maxSteps' r', construct p .hierarchy entries' maxSteps' = .ok r' →
              r.calleesAt caller site = r'.calleesAt caller site) := by
  obtain ⟨g, arrivals, hmade, hflow, hexact, table, hr, htable⟩ := typeFlow_stages h
  refine ⟨g, arrivals, hmade, hflow, hexact, fun caller site f d method hf hd hmethod => ?_⟩
  obtain ⟨hlt, hdispatch⟩ := Program.getElem?_dispatches.mp hd
  have hcall := List.getElem?_eq_getElem hlt
  rw [Program.dispatch, hcall] at hdispatch
  obtain ⟨receiver, hcallee⟩ := callee_of_dispatchSite (hdispatch ▸ hmethod)
  obtain ⟨sites, cs, hsites, hcs, hanswer⟩ := htable.callees hf hd hcall
  have hcallees : ∀ callee, callee ∈ r.calleesAt caller site ↔ callee ∈ cs := fun _ =>
    mem_calleesAt_edgesOf hr hsites hcs
  have horder : (r.calleesAt caller site).Pairwise (· < ·) := pairwise_calleesAt (pairwise_edges h)
  obtain ⟨hfollowed, hkept⟩ := hanswer receiver method hmethod hcallee
  refine ⟨_, receiver, hcall, hcallee, fun h => ⟨horder, fun callee => ?_⟩, fun hnot => ?_⟩
  · rw [hcallees, hfollowed h]
    simp only [hexact, FlowGraph.Receives]
  · have hall : r.calleesAt caller site = hierarchyTargets p d := by
      refine horder.eq_of_mem_iff (pairwise_hierarchyTargets p d) fun callee => ?_
      rw [hcallees, hkept hnot]
    exact ⟨hall, fun _ _ r' h' => hall.trans (calleesAt_hierarchy h' hf hd).symm⟩

/-- A value goes round between a variable and a parameter of unknown type, and a method is called on
the parameter and on a value of which nothing is known. -/
def circling : Function :=
  { package := "m", packageName := "main", file := "a.go"
    decl :=
      { name := "circle"
        params := [⟨some "b", none⟩]
        body :=
          { calls := [⟨5, .method (.var "b") "Speak", []⟩, ⟨6, .method .unknown "Speak", []⟩]
            assigns := [("a", .alloc ⟨"m", "Dog"⟩), ("b", .var "a"), ("a", .var "b")] } } }

/-- Two types have the method, and only one of them is allocated. -/
def speaking : Program :=
  let method (receiver : String) : Function :=
    { package := "m", packageName := "main", file := "a.go"
      decl := { name := "Speak", receiver := some ⟨none, receiver, false⟩ } }
  { modulePath := "m"
    functions := [method "Dog", method "Cat", circling]
    types := [(⟨"m", "Cat"⟩, .other), (⟨"m", "Dog"⟩, .other)] }

/-- The case of two types of which one is allocated: the receivers that read it have its method
alone, and the one that is not followed has both. -/
theorem typeFlow_exact_speaking :
    construct speaking .typeFlow [] 20 =
      .ok { edges := [⟨2, 0, 0⟩, ⟨2, 1, 0⟩, ⟨2, 1, 1⟩] } ∧
    ∃ g arrivals, FlowGraph.IsMadeFor speaking 20 g arrivals ∧ g.IsFlowOf speaking ∧
      ∃ t, admits speaking (.dynamic "Speak") t ∧ speaking.lookupMethod? t "Speak" = some 0 ∧
        g.Receives speaking 2 circling (.var "b") t := by
  have hrun : construct speaking .typeFlow [] 20 =
      .ok { edges := [⟨2, 0, 0⟩, ⟨2, 1, 0⟩, ⟨2, 1, 1⟩] } := by cbv
  obtain ⟨g, arrivals, hmade, hflow, -, hcalls⟩ := typeFlow_exact hrun
  have hd : (speaking.dispatches circling)[0]? = some (.dynamic "Speak") := by cbv
  obtain ⟨call, receiver, hcall, hcallee, hfollowed, -⟩ := hcalls 2 0 circling _ "Speak" rfl hd rfl
  cases hcall
  cases hcallee
  have hb : (Expr.var "b").IsFollowed speaking 2 circling := .inl ⟨.variable 2 "b", rfl⟩
  exact ⟨hrun, g, arrivals, hmade, hflow,
    ((hfollowed hb).2 0).mp (mem_calleesAt.mpr List.mem_cons_self)⟩

end CallImpact
