import CallImpact.Proofs.Program.Dispatch
import CallImpact.Proofs.Program.Embedding
import Mathlib

/-!
# Promotion

The method set of a type, the lookup of a method and the test for an interface go through embedded
types on their own, and agree (`method_sets_agree`): a type that is admitted to a call has the
method when it is looked up.

Which of several declarations a lookup finds is decided by depth-first order, not by depth. Nothing
that is declared on the way to the method found is passed over, but what a type embeds first is
searched to the bottom before what it embeds next. So a method is found before a shallower one just
where a type embeds what leads to the deeper one first (`promoted_unless_parted`), and then a call
is bound to a method that the language shadows (`deeper_method_promoted`).
-/

namespace CallImpact

namespace Program

section
variable {p : Program} {t u v iface : TypeRef} {method : String}

/-! ## Method sets -/

/-- The methods of an interface are listed in increasing order. -/
theorem pairwise_interfaceMethods : (p.interfaceMethods iface).Pairwise (· < ·) := by
  have htrans : ∀ a b c : String, decide (a < b) → decide (b < c) → decide (a < c) := by
    simp only [decide_eq_true_eq]
    exact fun a b c => lt_trans
  exact (pairwise_orderedSet htrans connected_text _).imp of_decide_eq_true

/-- For a concrete type, to have a method is to have it found. -/
theorem hasMethod_iff_isSome_lookupMethod? (ht : p.isConcrete t) :
    p.hasMethod t method ↔ (p.lookupMethod? t method).isSome := by
  rw [hasMethod_iff, isSome_lookupMethod?_iff, and_iff_right ht]

/-- A concrete type implements an interface when all that it requires, at least one method, is
found. -/
theorem implements_iff_forall_isSome (ht : p.isConcrete t) :
    p.implements t iface ↔ p.interfaceMethods iface ≠ [] ∧
      ∀ method ∈ p.interfaceMethods iface, (p.lookupMethod? t method).isSome := by
  simp only [ne_eq, List.eq_nil_iff_forall_not_mem, not_forall, not_not, mem_interfaceMethods,
    isSome_lookupMethod?_iff]
  rw [implements_iff]
  exact ⟨fun h => ⟨h.required, h.provided⟩, fun h => ⟨ht, h.1, h.2⟩⟩

/-- A type that is admitted to a call has the method, unless the call goes through an interface that
does not require it. -/
theorem isSome_lookupMethod?_of_admits {d : Dispatch} (hmethod : d.method? = some method)
    (h : admits p d t) : (p.lookupMethod? t method).isSome ∨
      ∃ iface, d = .interface iface method ∧ method ∉ p.interfaceMethods iface := by
  cases d with
  | static callee => cases hmethod
  | external => cases hmethod
  | interface iface method =>
    cases hmethod
    by_cases hrequired : method ∈ p.interfaceMethods iface
    · exact .inl (((implements_iff_forall_isSome (isConcrete_of_admits h)).mp h).2 method hrequired)
    · exact .inr ⟨iface, rfl, hrequired⟩
  | dynamic method =>
    cases hmethod
    exact .inl ((hasMethod_iff_isSome_lookupMethod? (isConcrete_of_admits h)).mp h)

/-! ## Depth -/

/-- Whether a number of steps of struct embedding leads from a type to another. -/
inductive EmbeddedAt (p : Program) (t : TypeRef) : Nat → TypeRef → Prop where
  | self : EmbeddedAt p t 0 t
  | step {depth : Nat} {u v : TypeRef} :
      EmbeddedAt p t depth u → v ∈ p.embeddedTypes u → EmbeddedAt p t (depth + 1) v

/-- Whether a number is the least number of steps that lead from a type to another. -/
def IsDepth (p : Program) (t u : TypeRef) (depth : Nat) : Prop :=
  IsLeast {depth | p.EmbeddedAt t depth u} depth

/-- At depth nought a type has itself alone. -/
theorem embeddedAt_zero_iff : p.EmbeddedAt t 0 u ↔ u = t := by
  constructor
  · rintro ⟨⟩
    rfl
  · rintro rfl
    exact .self

/-- One level further down stand the types that are embedded by those of a level. -/
theorem embeddedAt_succ_iff {depth : Nat} :
    p.EmbeddedAt t (depth + 1) v ↔ ∃ u, p.EmbeddedAt t depth u ∧ v ∈ p.embeddedTypes u := by
  constructor
  · rintro (_ | ⟨hu, hv⟩)
    exact ⟨_, hu, hv⟩
  · rintro ⟨u, hu, hv⟩
    exact .step hu hv

/-- Whether a type lies at a smaller depth than another. -/
def IsShallower (p : Program) (t v u : TypeRef) : Prop :=
  ∃ m n, p.IsDepth t v m ∧ p.IsDepth t u n ∧ m < n

/-- Whether a way leads from a type to another past types that do not declare a method. -/
abbrev LeadsPast (p : Program) (method : String) : TypeRef → TypeRef → Prop :=
  Relation.ReflTransGen fun t u => ¬ p.Declares t method ∧ u ∈ p.embeddedTypes t

/-- Whether a type embeds one that leads to `u` before one that leads to `v`. -/
def Parts (p : Program) (t u v : TypeRef) : Prop :=
  ∃ earlier b later, p.embeddedTypes t = earlier ++ b :: later ∧
    (∃ a ∈ earlier, p.Embeds a u) ∧ p.Embeds b v

/-- Where the ways to two types part, so do the ways to the first and to what the second embeds. -/
theorem Parts.step {w : TypeRef} (h : p.Parts t u v) (hw : w ∈ p.embeddedTypes v) :
    p.Parts t u w := by
  obtain ⟨earlier, b, later, heq, ha, hb⟩ := h
  exact ⟨earlier, b, later, heq, ha, hb.tail hw⟩

/-! ## The order of a lookup -/

/-- Whether a type is the one whose method another type has: nothing on the way to it declares the
method, and all shallower types that do are behind types that were embedded earlier. -/
structure IsPromoted (p : Program) (t : TypeRef) (method : String) (u : TypeRef) : Prop where
  declares : p.Declares u method
  way : p.LeadsPast method t u
  parted : ∀ v, p.Declares v method → p.IsShallower t v u →
    ∃ w, p.LeadsPast method t w ∧ ¬ p.Declares w method ∧ p.Parts w u v

/-- A type that is not declared embeds nothing. -/
theorem embeddedTypes_eq_nil : ∀ t, t ∉ p.types.map (·.1) → p.embeddedTypes t = [] := fun t ht => by
  rw [embeddedTypes, shape?_eq_none ht]

variable {before after : List TypeRef}

/-- A way leads to each type through those that come before it in depth-first order. -/
theorem leadsPast_of_embeddedIn (h : p.embeddedIn t = before ++ u :: after)
    (hbefore : ∀ w ∈ before, ¬ p.Declares w method) : p.LeadsPast method t u := by
  obtain ⟨q, hq, hway⟩ := exists_way_of_preorderFrom embeddedTypes_eq_nil h
  obtain rfl := List.mem_singleton.mp hq
  exact hway.lift id fun a b hstep => ⟨hbefore a hstep.1, hstep.2⟩

/-- What lies less deep than a type comes before it in depth-first order, or ways to the two part at
a type that comes before it. -/
theorem mem_or_parts_of_embeddedIn {depth : Nat} (h : p.embeddedIn t = before ++ u :: after)
    (hv : p.EmbeddedAt t depth v) (hdepth : ∀ n, p.EmbeddedAt t n u → depth < n) :
    v ∈ before ∨ ∃ w ∈ before, p.Parts w u v := by
  induction hv with
  | self =>
    obtain ⟨rest, hrest⟩ := exists_preorder_eq_cons (p.types.map (·.1)) p.embeddedTypes t
    rw [embeddedIn, hrest] at h
    cases before with
    | nil =>
      cases h
      exact absurd (hdepth 0 .self) (Nat.lt_irrefl 0)
    | cons first before =>
      cases h
      exact .inl List.mem_cons_self
  | @step depth w v hw hnext ih =>
    rcases ih fun n hn => Nat.lt_of_succ_lt (hdepth n hn) with hlisted | ⟨x, hx, hparts⟩
    · by_cases hv : v ∈ before
      · exact .inl hv
      · have hne : v ≠ u := fun heq => Nat.lt_irrefl _ (hdepth _ (heq ▸ .step hw hnext))
        obtain ⟨earlier, later, hsplit⟩ := List.append_of_mem hnext
        obtain ⟨a, ha, hway⟩ := exists_earlier_of_preorderFrom embeddedTypes_eq_nil h hlisted hsplit
          List.not_mem_nil hv hne
        exact .inr ⟨w, hlisted, earlier, v, later, hsplit, ⟨a, ha, hway⟩, .refl⟩
    · exact .inr ⟨x, hx, hparts.step hnext⟩

/-- A lookup finds the method of the type that promotes it. -/
theorem isPromoted_of_lookupMethod? {n : Nat} (h : p.lookupMethod? t method = some n) :
    ∃ f u, p.functions[n]? = some f ∧ f.receiverType? = some u ∧ p.IsPromoted t method u := by
  rw [lookupMethod?_eq] at h
  obtain ⟨before, u, after, horder, hu, hnone⟩ := List.findSome?_eq_some_iff.mp h
  obtain ⟨f, hf, hreceiver, hname⟩ := exists_of_declaredMethod? hu
  have hbefore : ∀ w ∈ before, ¬ p.Declares w method := fun w hw hdeclares => by
    have hsome := isSome_declaredMethod?_iff.mpr hdeclares
    rw [hnone w hw] at hsome
    cases hsome
  refine ⟨f, u, hf, hreceiver, ⟨f, List.mem_of_getElem? hf, hreceiver, hname⟩,
    leadsPast_of_embeddedIn horder hbefore, fun v hdeclares hshallower => ?_⟩
  obtain ⟨m, n, hm, hn, hlt⟩ := hshallower
  rcases mem_or_parts_of_embeddedIn horder hm.1 fun k hk => Nat.lt_of_lt_of_le hlt (hn.2 hk) with
    hv | ⟨w, hw, hparts⟩
  · exact absurd hdeclares (hbefore v hv)
  · obtain ⟨before', after', hsplit⟩ := List.append_of_mem hw
    have horder' : p.embeddedIn t = before' ++ w :: (after' ++ u :: after) := by
      rw [horder, hsplit, List.append_assoc, List.cons_append]
    have hbefore' : ∀ x ∈ before', ¬ p.Declares x method := fun x hx =>
      hbefore x (hsplit ▸ List.mem_append_left _ hx)
    exact ⟨w, leadsPast_of_embeddedIn horder' hbefore', hbefore w hw, hparts⟩

end

end Program

/-! ## The two laws -/

/-- Whatever the program and however its types embed each other: a concrete type has just the
methods that are found in it, which are those that it or a type it embeds declares; an interface
requires what it and the interfaces it embeds list; and a concrete type implements it when all of
that, at least one method, is found. So each type that is admitted to a call of a method has its
method among the callees, unless the interface that the call goes through does not require it. -/
theorem method_sets_agree (p : Program) :
    (∀ t method, p.isConcrete t →
      (p.hasMethod t method ↔ (p.lookupMethod? t method).isSome) ∧
      ((p.lookupMethod? t method).isSome ↔ ∃ u, p.Embeds t u ∧ p.Declares u method)) ∧
    (∀ iface, (p.interfaceMethods iface).Pairwise (· < ·) ∧
      ∀ method, method ∈ p.interfaceMethods iface ↔
        ∃ j, p.Extends iface j ∧ method ∈ p.listedMethods j) ∧
    (∀ t iface, p.isConcrete t → (p.implements t iface ↔ p.interfaceMethods iface ≠ [] ∧
      ∀ method ∈ p.interfaceMethods iface, (p.lookupMethod? t method).isSome)) ∧
    ∀ d t method, d.method? = some method → admits p d t →
      (∃ n, p.lookupMethod? t method = some n ∧ n ∈ hierarchyTargets p d) ∨
        ∃ iface, d = .interface iface method ∧ method ∉ p.interfaceMethods iface := by
  refine ⟨fun t method ht => ?_, fun iface => ?_, fun t iface ht => ?_, ?_⟩
  · exact ⟨Program.hasMethod_iff_isSome_lookupMethod? ht, Program.isSome_lookupMethod?_iff⟩
  · exact ⟨Program.pairwise_interfaceMethods, fun method => Program.mem_interfaceMethods⟩
  · exact Program.implements_iff_forall_isSome ht
  · intro d t method hmethod hadmits
    refine (Program.isSome_lookupMethod?_of_admits hmethod hadmits).imp_left fun hsome => ?_
    obtain ⟨n, hn⟩ := Option.isSome_iff_exists.mp hsome
    exact ⟨n, hn, (mem_hierarchyTargets hmethod).mpr ⟨t, hadmits, hn⟩⟩

/-- Whatever the program, a lookup finds the method of a type to which a way leads past types that
do not declare it. A shallower type that declares the method as well is behind a type that embeds
what leads to it later than what leads to the type found. The same holds of each direct call of a
method. So where no type embeds two types that lead to declarations, none at a smaller depth has
one. -/
theorem promoted_unless_parted (p : Program) :
    (∀ t method n, p.lookupMethod? t method = some n →
      ∃ f u, p.functions[n]? = some f ∧ f.receiverType? = some u ∧ p.IsPromoted t method u) ∧
    ∀ f number site receiver method n, f.decl.body.calls[number]? = some site →
      site.callee = .method receiver method → p.dispatch f number = .static n →
      ∃ t g u, p.typeOf f (Program.typeSteps - 1) receiver = .named t ∧
        p.functions[n]? = some g ∧ g.receiverType? = some u ∧ p.IsPromoted t method u := by
  refine ⟨fun t method n => Program.isPromoted_of_lookupMethod?, ?_⟩
  intro f number site receiver method n hsite hcallee h
  obtain ⟨t, ht, hn⟩ := Program.exists_lookupMethod?_of_dispatch hsite hcallee h
  obtain ⟨g, u, hg, hu, hpromoted⟩ := Program.isPromoted_of_lookupMethod? hn
  exact ⟨t, g, u, ht, hg, hu, hpromoted⟩

/-- A function that calls a method of a struct. -/
def stopping : Function :=
  { package := "m", packageName := "m", file := "a.go"
    decl :=
      { name := "Run"
        body :=
          { calls := [⟨9, .method (.var "e") "Stop", []⟩]
            declared := [("e", ⟨"m", "Engine"⟩)] } } }

/-- The struct embeds a type that declares the method, but before it one that embeds another such
type. -/
def engine : Program :=
  let method (receiver : String) : Function :=
    { package := "m", packageName := "m", file := "a.go"
      decl := { name := "Stop", receiver := some ⟨none, receiver, false⟩ } }
  { modulePath := "m"
    functions := [method "Deep", method "Near", stopping]
    types := [(⟨"m", "Deep"⟩, .struct [] []), (⟨"m", "Middle"⟩, .struct [] [⟨"m", "Deep"⟩]),
      (⟨"m", "Near"⟩, .struct [] []),
      (⟨"m", "Engine"⟩, .struct [] [⟨"m", "Middle"⟩, ⟨"m", "Near"⟩])] }

/-- The lookup finds the method of the type at depth two, and the call is bound to it, although the
one at depth one shadows it. -/
theorem deeper_method_promoted :
    engine.lookupMethod? ⟨"m", "Engine"⟩ "Stop" = some 0 ∧
      engine.functions[0]?.bind Function.receiverType? = some ⟨"m", "Deep"⟩ ∧
      engine.Declares ⟨"m", "Near"⟩ "Stop" ∧
      engine.IsShallower ⟨"m", "Engine"⟩ ⟨"m", "Near"⟩ ⟨"m", "Deep"⟩ ∧
      engine.dispatch stopping 0 = .static 0 ∧
      construct engine .direct [] 5 = .ok { edges := [⟨2, 0, 0⟩] } := by
  have hengine : engine.embeddedTypes ⟨"m", "Engine"⟩ = [⟨"m", "Middle"⟩, ⟨"m", "Near"⟩] := by cbv
  have hmiddle : engine.embeddedTypes ⟨"m", "Middle"⟩ = [⟨"m", "Deep"⟩] := by cbv
  have hself : engine.EmbeddedAt ⟨"m", "Engine"⟩ 0 ⟨"m", "Engine"⟩ := .self
  have hnear : engine.IsDepth ⟨"m", "Engine"⟩ ⟨"m", "Near"⟩ 1 := by
    refine ⟨hself.step (by simp [hengine]), fun depth hdepth => Nat.pos_of_ne_zero ?_⟩
    rintro rfl
    simpa using Program.embeddedAt_zero_iff.mp hdepth
  have hdeep : engine.IsDepth ⟨"m", "Engine"⟩ ⟨"m", "Deep"⟩ 2 := by
    have hmid : engine.EmbeddedAt ⟨"m", "Engine"⟩ 1 ⟨"m", "Middle"⟩ :=
      hself.step (by simp [hengine])
    refine ⟨hmid.step (by simp [hmiddle]), fun depth hdepth => ?_⟩
    -- one step leads to the two types that are embedded directly
    rcases depth with _ | _ | depth
    · simpa using Program.embeddedAt_zero_iff.mp hdepth
    · simp [Program.embeddedAt_succ_iff, Program.embeddedAt_zero_iff, hengine] at hdepth
    · exact Nat.le_add_left 2 depth
  have hdeclares : engine.Declares ⟨"m", "Near"⟩ "Stop" :=
    Program.isSome_declaredMethod?_iff.mp (by cbv)
  exact ⟨by cbv, rfl, hdeclares, ⟨1, 2, hnear, hdeep, Nat.one_lt_two⟩, by cbv, by cbv⟩

end CallImpact
