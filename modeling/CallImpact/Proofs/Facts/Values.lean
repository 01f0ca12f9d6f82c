import CallImpact.Proofs.Facts.Calls
import CallImpact.Proofs.Go.Spots
import Mathlib.Data.List.Forall2

/-!
# Values and the calls they come from

A look at a value records the call that the value comes from, unless it is recorded already.
`Walker.HasRecorded` says that the calls recorded so far are those of a list, each once and each
after the calls nested in it, and `Records` that a step only appends to this list. A call is
recorded after all that is recorded for its parts, which is smaller than the call and so not the
call itself (`records_call`).
-/

namespace CallImpact

open Go (Node Spot IsTree)

/-! ## What is recorded -/

/-- Whether the calls recorded so far are those of a list, in order: each once, and each after the
calls nested in it. -/
structure Walker.HasRecorded (scope : Scope) (tree order : List Spot) (w : Walker) : Prop where
  recorded : w.recorded.map Prod.fst = (order.map Spot.path).reverse
  entries : List.Forall₂ (IsEntryOf scope) order w.facts.calls
  nodup : order.Nodup
  calls : ∀ s ∈ order, s ∈ tree ∧ scope.IsCall s
  nested : ∀ (number : Nat) (outer : Spot), order[number]? = some outer →
    ∀ inner, NestedIn scope inner outer → inner ∈ order.take number

/-- At first nothing is recorded. -/
theorem hasRecorded_empty (scope : Scope) (tree : List Spot) (names : List String) :
    ({ locals := names } : Walker).HasRecorded scope tree [] where
  recorded := rfl
  entries := .nil
  nodup := .nil
  calls := nofun
  nested := nofun

/-- Only what is remembered of calls matters, and the entries. -/
theorem Walker.HasRecorded.congr {scope : Scope} {tree order : List Spot} {w w' : Walker}
    (h : w.HasRecorded scope tree order) (hrecorded : w'.recorded = w.recorded)
    (hcalls : w'.facts.calls = w.facts.calls) : w'.HasRecorded scope tree order :=
  { h with recorded := hrecorded ▸ h.recorded, entries := hcalls ▸ h.entries }

namespace Walk

/-- A step appends calls to those recorded and types to those allocated, and what it gives has a
property, together with all calls recorded by then. -/
def Records {α : Type} (scope : Scope) (tree order : List Spot) (types : List TypeRef) (m : Walk α)
    (post : List Spot → α → Prop) : Prop :=
  ∀ w : Walker, w.HasRecorded scope tree order →
    ∃ order', order <+: order' ∧ (m w).2.HasRecorded scope tree order' ∧
      (m w).2.facts.allocs = w.facts.allocs ++ types ∧ post order' (m w).1

/-- A step that allocates nothing, and about whose result nothing is said. -/
abbrev RecordsOnly {α : Type} (scope : Scope) (tree order : List Spot) (m : Walk α) : Prop :=
  Records scope tree order [] m fun _ _ => True

namespace Records

variable {α β : Type} {scope : Scope} {tree order : List Spot} {types types' : List TypeRef}
  {m : Walk α} {post : List Spot → α → Prop}

/-- A value records nothing. -/
protected theorem pure {a : α} (h : post order a) : Records scope tree order [] (pure a) post :=
  fun _ hw => ⟨order, List.prefix_rfl, hw, (List.append_nil _).symm, h⟩

/-- What is said of the result of a step can be weakened. -/
theorem mono {post' : List Spot → α → Prop} (h : Records scope tree order types m post)
    (himp : ∀ order' a, order <+: order' → post order' a → post' order' a) :
    Records scope tree order types m post' := by
  intro w hw
  obtain ⟨order', hmore, hw', hallocs, hpost⟩ := h w hw
  exact ⟨order', hmore, hw', hallocs, himp order' (m w).1 hmore hpost⟩

/-- What is known of the result of a step can be left unsaid. -/
theorem only (h : Records scope tree order [] m post) : RecordsOnly scope tree order m :=
  h.mono fun _ _ _ _ => trivial

/-- What is allocated by one step after another. -/
theorem seq {next : α → Walk β} {post' : List Spot → β → Prop}
    (hm : Records scope tree order types m post)
    (hnext : ∀ order' a, order <+: order' → post order' a →
      Records scope tree order' types' (next a) post') :
    Records scope tree order (types ++ types') (m >>= next) post' := by
  intro w hw
  obtain ⟨order', hmore, hw', hallocs, hpost⟩ := hm w hw
  obtain ⟨order'', hmore', hw'', hallocs', hpost'⟩ :=
    hnext order' (m w).1 hmore hpost (m w).2 hw'
  refine ⟨order'', hmore.trans hmore', hw'', ?_, hpost'⟩
  rw [← List.append_assoc, ← hallocs]
  exact hallocs'

/-- What comes after a step that allocates nothing may rely on what was recorded. -/
protected theorem bind {next : α → Walk β} {post' : List Spot → β → Prop}
    (hm : Records scope tree order [] m post)
    (hnext : ∀ order' a, order <+: order' → post order' a →
      Records scope tree order' types (next a) post') :
    Records scope tree order types (m >>= next) post' :=
  hm.seq hnext

/-- A loop whose steps allocate nothing. -/
protected theorem forIn {f : β → PUnit → Walk (ForInStep PUnit)} {xs : List β}
    (h : ∀ x ∈ xs, ∀ u order', order <+: order' → RecordsOnly scope tree order' (f x u))
    (u : PUnit) : RecordsOnly scope tree order (forIn xs u f) := by
  induction xs generalizing order u with
  | nil => exact .pure trivial
  | cons x xs ih =>
    rw [List.forIn_cons]
    refine (h x List.mem_cons_self u order List.prefix_rfl).bind fun order' step hmore _ => ?_
    cases step with
    | done u => exact .pure trivial
    | yield u =>
      exact ih (fun y hy v o ho => h y (List.mem_cons_of_mem x hy) v o (hmore.trans ho)) u

end Records

/-! ## Steps -/

section
variable {scope : Scope} {tree order : List Spot} {types : List TypeRef}

/-- To bind a name records nothing. -/
theorem records_bindName (name : String) : RecordsOnly scope tree order (bindName name) :=
  fun _ hw => ⟨order, List.prefix_rfl, hw.congr rfl rfl, (List.append_nil _).symm, trivial⟩

/-- To look whether a name is bound records nothing. -/
theorem records_isBound (name : String) :
    Records scope tree order [] (isBound name) fun order' _ => order' = order :=
  fun _ hw => ⟨order, List.prefix_rfl, hw, (List.append_nil _).symm, rfl⟩

/-- What names a package is an identifier. -/
theorem records_importedAs? (s : Spot) :
    Records scope tree order [] (importedAs? scope s) fun order' package =>
      order' = order ∧ ∀ path ∈ package, s.kind = .identifier ∧
        scope.imports.lookup s.text = some path := by
  unfold importedAs?
  split
  · rename_i hkind
    have hkind : s.kind = .identifier := by revert hkind; cases s.kind <;> decide
    refine (records_isBound s.text).bind fun order' bound _ heq => ?_
    cases bound with
    | true => exact .pure ⟨heq, nofun⟩
    | false => exact .pure ⟨heq, fun path hpath => ⟨hkind, hpath⟩⟩
  · exact .pure ⟨rfl, nofun⟩

/-- Recording facts other than calls. -/
theorem records_record {f : BodyFacts → BodyFacts} (hcalls : ∀ b, (f b).calls = b.calls)
    (hallocs : ∀ b, (f b).allocs = b.allocs ++ types) :
    Records scope tree order types (record f) fun _ _ => True :=
  fun w hw => ⟨order, List.prefix_rfl, hw.congr rfl (hcalls w.facts), hallocs w.facts, trivial⟩

/-- To record something else than calls and allocations keeps these. -/
theorem records_recordOnly {f : BodyFacts → BodyFacts} (hcalls : ∀ b, (f b).calls = b.calls)
    (hallocs : ∀ b, (f b).allocs = b.allocs) : RecordsOnly scope tree order (record f) :=
  records_record hcalls fun b => (hallocs b).trans (List.append_nil _).symm

/-- A call is found when it was recorded, and only then. -/
theorem records_recorded? (ht : IsTree tree) {s : Spot} (hs : s ∈ tree) :
    Records scope tree order [] (recorded? s) fun order' number =>
      order' = order ∧ (number.isSome ↔ s ∈ order) := by
  intro w hw
  refine ⟨order, List.prefix_rfl, hw, (List.append_nil _).symm, rfl, ?_⟩
  have hpath : s.path ∈ w.recorded.map Prod.fst ↔ s ∈ order := by
    rw [hw.recorded, List.mem_reverse, List.mem_map]
    constructor
    · rintro ⟨t, hmem, heq⟩
      exact ht.eq_of_path t (hw.calls t hmem).1 s hs heq ▸ hmem
    · exact fun hmem => ⟨s, hmem, rfl⟩
  rw [← hpath]
  change (w.recorded.lookup s.path).isSome ↔ _
  rw [List.lookup_isSome_iff, List.mem_map]
  exact exists_congr fun entry => and_congr_right fun _ => by rw [beq_iff_eq, eq_comm]

/-- A call that is not recorded is recorded after the calls nested in it. -/
theorem records_recordCall {s : Spot} {site : CallSite} (hs : s ∈ tree) (hcall : scope.IsCall s)
    (hnew : s ∉ order) (hnested : ∀ inner, NestedIn scope inner s → inner ∈ order)
    (hsite : IsEntryOf scope s site) :
    Records scope tree order [] (recordCall s site) fun order' _ => order' = order ++ [s] := by
  intro w hw
  refine ⟨order ++ [s], List.prefix_append _ _, ?_, (List.append_nil _).symm, rfl⟩
  constructor
  · change s.path :: w.recorded.map Prod.fst = _
    rw [hw.recorded, List.map_append, List.reverse_append]
    rfl
  · change List.Forall₂ (IsEntryOf scope) (order ++ [s]) (w.facts.calls ++ [site])
    exact List.rel_append hw.entries (.cons hsite .nil)
  · exact List.nodup_append.mpr ⟨hw.nodup, List.nodup_singleton s, fun a ha b hb heq =>
      hnew (List.mem_singleton.mp hb ▸ heq ▸ ha)⟩
  · intro c hc
    rcases List.mem_append.mp hc with hc | hc
    · exact hw.calls c hc
    · rw [List.mem_singleton.mp hc]
      exact ⟨hs, hcall⟩
  · intro number outer houter inner hinner
    rcases Nat.lt_or_ge number order.length with hlt | hge
    · rw [List.getElem?_append_left hlt] at houter
      rw [List.take_append_of_le_length (Nat.le_of_lt hlt)]
      exact hw.nested number outer houter inner hinner
    · rw [List.getElem?_append_right hge] at houter
      obtain rfl := List.mem_singleton.mp (List.mem_of_getElem? houter)
      rw [List.take_append, List.take_of_length_le hge]
      exact List.mem_append_left _ (hnested inner hinner)

end

/-! ## Values

One proof for each of the three functions that call one another, by the size of the node. -/

/-- Whether all that was recorded since is smaller than some size. -/
def Within (size : Nat) (order order' : List Spot) : Prop :=
  ∀ s ∈ order', s ∈ order ∨ sizeOf s.node < size

/-- Whether the call that a value comes from is recorded, and nothing else since but what is inside
the expression. -/
structure Traced (scope : Scope) (order : List Spot) (s : Spot) (order' : List Spot) : Prop where
  comes : ∀ c, ComesFrom scope s c → c ∈ order'
  within : Within (sizeOf s.node + 1) order order'

/-- Whether a callee is read off, the call that its receiver comes from is recorded, and nothing
else since but what is inside the expression. -/
structure Called (scope : Scope) (order : List Spot) (function : Spot) (order' : List Spot)
    (callee : Callee) : Prop where
  named : IsNamedBy scope function.unparenthesized callee
  comes : ∀ receiver ∈ function.calledOn?, ∀ c, ComesFrom scope receiver c → c ∈ order'
  within : Within (sizeOf function.node + 1) order order'

section
variable {scope : Scope} {tree order order' order'' : List Spot} {s part : Spot} {size : Nat}

/-- Where nothing was recorded since, nothing is too large. -/
theorem Within.refl (size : Nat) (order : List Spot) : Within size order order :=
  fun _ hs => .inl hs

/-- What was recorded in two steps is small when it is in each. -/
theorem Within.trans {size' : Nat} (h : Within size order order') (h' : Within size' order' order'')
    (hle : size ≤ size') : Within size' order order'' := by
  intro s hs
  rcases h' s hs with hs | hs
  · exact (h s hs).imp_right fun hlt => Nat.lt_of_lt_of_le hlt hle
  · exact .inr hs

/-- What is smaller than a size is smaller than a larger one. -/
theorem Within.mono {size' : Nat} (h : Within size order order') (hle : size ≤ size') :
    Within size' order order' :=
  h.trans (Within.refl size' order') hle

/-- A value that comes from no call. -/
theorem Traced.nothing (hcall : s.kind ≠ .callExpression) (hpart : s.followed? = none) :
    Traced scope order s order :=
  ⟨fun _ hc => absurd hc (not_comesFrom (fun h => hcall h.1) hpart), .refl _ _⟩

/-- A value that is taken from a part. -/
theorem Traced.of_followed (h : Traced scope order part order') (hpart : s.followed? = some part)
    (hlt : sizeOf part.node < sizeOf s.node) : Traced scope order s order' :=
  ⟨fun _ hc => h.comes _ (hc.of_followed hpart),
    h.within.mono (Nat.succ_le_succ (Nat.le_of_lt hlt))⟩

/-- What a call of an expression names when the expression is no selector. -/
theorem Called.nothing {function : Spot} {callee : Callee}
    (hselector : function.unparenthesized.selector? = none)
    (hcallee : function.unparenthesized.kind = .identifier ∧
      callee = .ident function.unparenthesized.text ∨ callee = .indirect) :
    Called scope order function order callee where
  named := by rwa [IsNamedBy, hselector]
  comes receiver hreceiver := by
    rw [Spot.calledOn?, hselector] at hreceiver
    cases hreceiver
  within := .refl _ _

end

/-- The values of some expressions, one after the other. -/
theorem records_values {scope : Scope} {tree order : List Spot} {α : Type} (spot : α → Spot)
    {xs : List α}
    (hvalue : ∀ x ∈ xs, ∀ order, Records scope tree order [] (value scope (spot x))
      fun order' _ => Traced scope order (spot x) order') :
    Records scope tree order [] (xs.mapM fun x => value scope (spot x)) fun order' es =>
      es.length = xs.length ∧ (∀ x ∈ xs, ∀ c, ComesFrom scope (spot x) c → c ∈ order') ∧
        ∀ s ∈ order', s ∈ order ∨ ∃ x ∈ xs, sizeOf s.node ≤ sizeOf (spot x).node := by
  induction xs generalizing order with
  | nil => exact .pure ⟨rfl, nofun, fun s hs => .inl hs⟩
  | cons x xs ih =>
    rw [List.mapM_cons]
    refine (hvalue x List.mem_cons_self order).bind fun order' e _ htraced => ?_
    refine (ih fun y hy => hvalue y (List.mem_cons_of_mem x hy)).bind
      fun order'' es hmore ⟨hlength, hcomes, hwithin⟩ => ?_
    refine .pure ⟨by rw [List.length_cons, hlength, List.length_cons], ?_, fun s hs => ?_⟩
    · exact List.forall_mem_cons.mpr ⟨fun c hc => hmore.subset (htraced.comes c hc), hcomes⟩
    · rcases hwithin s hs with hs | ⟨y, hy, hle⟩
      · rcases htraced.within s hs with hs | hlt
        · exact .inl hs
        · exact .inr ⟨x, List.mem_cons_self, Nat.le_of_lt_succ hlt⟩
      · exact .inr ⟨y, List.mem_cons_of_mem x hy, hle⟩

/-- A call is recorded when what was recorded for its parts is recorded. That is smaller than the
call, so the call itself is still not among it. -/
theorem records_recordCall_after {scope : Scope} {tree order order' : List Spot} {s : Spot}
    {site : CallSite} (hs : s ∈ tree) (hcall : scope.IsCall s) (hnew : s ∉ order)
    (hwithin : Within (sizeOf s.node) order order')
    (hnested : ∀ inner, NestedIn scope inner s → inner ∈ order') (hsite : IsEntryOf scope s site) :
    Records scope tree order' [] (recordCall s site) fun order'' _ =>
      s ∈ order'' ∧ Within (sizeOf s.node + 1) order order'' := by
  have hnew' : s ∉ order' := fun hmem => (hwithin s hmem).elim hnew (Nat.lt_irrefl _)
  refine (records_recordCall hs hcall hnew' hnested hsite).mono fun _ _ _ heq => ?_
  subst heq
  refine ⟨List.mem_append_right _ (List.mem_singleton_self s), fun c hc => ?_⟩
  rcases List.mem_append.mp hc with hc | hc
  · exact (hwithin c hc).imp_right Nat.lt_succ_of_lt
  · exact .inr (List.mem_singleton.mp hc ▸ Nat.lt_succ_self _)

/-- When the callee was read off, the arguments are looked at and the call is recorded. -/
theorem records_recordArguments {scope : Scope} {tree order order' : List Spot} {s : Spot}
    (callee : Callee) (hs : s ∈ tree) (hcall : scope.IsCall s) (hnew : s ∉ order)
    (hwithin : Within (sizeOf s.node) order order')
    (hcallee : match s.child? .function with
      | some function => IsNamedBy scope function.unparenthesized callee
      | none => callee = .indirect)
    (hreceiver : ∀ r ∈ (s.child? .function).bind Spot.calledOn?, ∀ c, ComesFrom scope r c →
      c ∈ order')
    (hvalue : ∀ a ∈ s.namedIn .arguments, ∀ order, Records scope tree order [] (value scope a)
      fun order' _ => Traced scope order a order') :
    Records scope tree order' []
      (match s.child? .arguments with
        | some arguments => do
          let args ← arguments.named.attach.mapM fun a => value scope a.1
          recordCall s { line := arguments.node.startLine, callee, args }
        | none => recordCall s { line := s.node.startLine, callee, args := [] })
      fun order'' _ => s ∈ order'' ∧ Within (sizeOf s.node + 1) order order'' := by
  have hnested : ∀ {order'' : List Spot}, order' <+: order'' →
      (∀ a ∈ s.namedIn .arguments, ∀ c, ComesFrom scope a c → c ∈ order'') →
      ∀ inner, NestedIn scope inner s → inner ∈ order'' := by
    rintro order'' hmore hargs inner ⟨part, hpart, hinner⟩
    rcases List.mem_append.mp hpart with hpart | hpart
    · exact hmore.subset (hreceiver part (Option.mem_toList.mp hpart) inner hinner)
    · exact hargs part hpart inner hinner
  cases h : s.child? .arguments with
  | none =>
    have hargs : s.namedIn .arguments = [] := by simp [Spot.namedIn, h]
    refine records_recordCall_after hs hcall hnew hwithin
      (hnested List.prefix_rfl (by simp [hargs])) ⟨?_, hcallee, ?_⟩
    · rw [h]
      rfl
    · rw [hargs]
      rfl
  | some arguments =>
    have hargs : s.namedIn .arguments = arguments.named := by simp [Spot.namedIn, h]
    rw [hargs] at hvalue hnested
    refine (records_values (fun a : {a // a ∈ arguments.named} => a.1)
      fun a _ => hvalue a.1 a.2).bind fun order'' args hmore ⟨hlength, hcomes, hinside⟩ => ?_
    have hwithin' : Within (sizeOf s.node) order' order'' := fun c hc =>
      (hinside c hc).imp_right fun ⟨a, _, hle⟩ => Nat.lt_of_le_of_lt hle
        (Nat.lt_trans (Spot.sizeOf_lt_of_mem_named a.2) (Spot.sizeOf_lt_of_child? h))
    refine records_recordCall_after hs hcall hnew (hwithin.trans hwithin' (Nat.le_refl _))
      (hnested hmore fun a ha => hcomes ⟨a, ha⟩ (List.mem_attach _ _)) ⟨?_, hcallee, ?_⟩
    · rw [h]
      rfl
    · rw [hargs, hlength, List.length_attach]

mutual

/-- A value leaves the call recorded that it comes from. -/
theorem records_value {tree : List Spot} (ht : IsTree tree) (scope : Scope) (s : Spot)
    (hs : s ∈ tree) (order : List Spot) :
    Records scope tree order [] (value scope s) fun order' _ => Traced scope order s order' := by
  rw [value]
  split
  · rename_i hkind
    exact .pure (.nothing (by simp [hkind]) (by simp [Spot.followed?, hkind]))
  · rename_i hkind
    split
    · next operand field h hfield =>
      have hlt : sizeOf operand.node < sizeOf s.node := Spot.sizeOf_lt_of_child? h
      have hpart : s.followed? = some operand := by
        simp [Spot.followed?, Spot.selector?, hkind, h, hfield]
      refine (records_importedAs? operand).bind fun order' package _ ⟨heq, hpackage⟩ => ?_
      subst heq
      split
      · rename_i hsome
        obtain ⟨path, rfl⟩ := Option.isSome_iff_exists.mp hsome
        have hoperand := (hpackage path rfl).1
        have htraced : Traced scope order' operand order' :=
          .nothing (by simp [hoperand]) (by simp [Spot.followed?, hoperand])
        exact .pure (htraced.of_followed hpart hlt)
      · refine (records_value ht scope operand (ht.child? hs h) order').bind
          fun order'' base _ htraced => ?_
        exact .pure (htraced.of_followed hpart hlt)
    · rename_i hnone
      refine .pure (.nothing (by simp [hkind]) ?_)
      rw [Spot.followed?, hkind]
      exact congrArg (Option.map _) (Spot.selector?_eq_none hnone)
  · rename_i hkind
    split
    · exact .pure (.nothing (by simp [hkind]) (by simp [Spot.followed?, hkind]))
    · exact .pure (.nothing (by simp [hkind]) (by simp [Spot.followed?, hkind]))
  · rename_i hkind
    split
    · next operand h =>
      have hlt : sizeOf operand.node < sizeOf s.node := Spot.sizeOf_lt_of_child? h
      split
      · rename_i hoperator
        exact (records_value ht scope operand (ht.child? hs h) order).mono fun _ _ _ htraced =>
          htraced.of_followed (by simp only [Spot.followed?, hkind, if_pos hoperator, h]) hlt
      · rename_i hoperator
        exact .pure (.nothing (by simp [hkind])
          (by simp only [Spot.followed?, hkind, if_neg hoperator]))
    · rename_i hnone
      exact .pure (.nothing (by simp [hkind]) (by simp [Spot.followed?, hkind, hnone]))
  · rename_i hkind
    split
    · next inner rest h =>
      have hinner : inner ∈ s.named := h ▸ List.mem_cons_self
      have hlt : sizeOf inner.node < sizeOf s.node := Spot.sizeOf_lt_of_mem_named hinner
      exact (records_value ht scope inner (ht.named hs hinner) order).mono fun _ _ _ htraced =>
        htraced.of_followed (by simp [Spot.followed?, hkind, h]) hlt
    · rename_i hnil
      exact .pure (.nothing (by simp [hkind]) (by simp [Spot.followed?, hkind, hnil]))
  · rename_i hkind
    have hpart : s.followed? = none := by simp [Spot.followed?, hkind]
    split
    · rename_i hnew
      exact .pure ⟨fun c hc => absurd hc (not_comesFrom (fun h => by simp [h.2] at hnew) hpart),
        .refl _ _⟩
    · rename_i hnew
      refine (records_call ht scope s hs ⟨hkind, hnew⟩ order).bind
        fun order' number _ ⟨hmem, hwithin⟩ => ?_
      refine .pure ⟨fun c hc => ?_, hwithin⟩
      cases hc with
      | call _ => exact hmem
      | through h _ => rw [hpart] at h; cases h
  · rename_i hkind
    split
    · next operand h =>
      have hlt : sizeOf operand.node < sizeOf s.node := Spot.sizeOf_lt_of_child? h
      refine (records_value ht scope operand (ht.child? hs h) order).bind
        fun order' base _ htraced => ?_
      have htraced' : Traced scope order s order' :=
        htraced.of_followed (by simp [Spot.followed?, hkind, h]) hlt
      split
      · exact .pure htraced'
      · exact .pure htraced'
    · rename_i hnone
      exact .pure (.nothing (by simp [hkind]) (by simp [Spot.followed?, hkind, hnone]))
  · rename_i hselector _ hunary hparenthesized hcall hassertion
    refine .pure (.nothing hcall ?_)
    unfold Spot.followed?
    split
    · exact absurd ‹_› hselector
    · exact absurd ‹_› hunary
    · exact absurd ‹_› hparenthesized
    · exact absurd ‹_› hassertion
    · rfl
termination_by (sizeOf s.node, 1)

/-- A call is recorded in any case. -/
theorem records_call {tree : List Spot} (ht : IsTree tree) (scope : Scope) (s : Spot)
    (hs : s ∈ tree) (hcall : scope.IsCall s) (order : List Spot) :
    Records scope tree order [] (call scope s) fun order' _ =>
      s ∈ order' ∧ Within (sizeOf s.node + 1) order order' := by
  rw [call]
  refine (records_recorded? ht hs).bind fun order' found _ ⟨heq, hfound⟩ => ?_
  subst heq
  cases found with
  | some number => exact .pure ⟨hfound.mp rfl, .refl _ _⟩
  | none =>
    have hnew : s ∉ order' := fun hmem => by simpa using hfound.mpr hmem
    have hvalue : ∀ a ∈ s.namedIn .arguments, ∀ order, Records scope tree order [] (value scope a)
        fun order' _ => Traced scope order a order' := fun a ha order => by
      obtain ⟨arguments, harguments, hnamed⟩ := Spot.mem_namedIn.mp ha
      have : sizeOf a.node < sizeOf s.node :=
        Nat.lt_trans (Spot.sizeOf_lt_of_mem_named hnamed) (Spot.sizeOf_lt_of_child? harguments)
      exact records_value ht scope a (ht.namedIn hs ha) order
    dsimp only
    split
    · next function h =>
      have hlt : sizeOf function.node < sizeOf s.node := Spot.sizeOf_lt_of_child? h
      refine (records_calleeOf ht scope function (ht.child? hs h) order').bind
        fun order'' callee _ hcalled => ?_
      have hargs := records_recordArguments callee hs hcall hnew
        (hcalled.within.mono hlt) (by rw [h]; exact hcalled.named)
        (by rw [h]; exact hcalled.comes) hvalue
      split
      · next arguments ha => simpa only [ha] using hargs
      · next ha => simpa only [ha] using hargs
    · next h =>
      have hargs := records_recordArguments .indirect hs hcall hnew (.refl _ _)
        (by rw [h]) (by rw [h]; exact nofun) hvalue
      rw [pure_bind]
      split
      · next arguments ha => simpa only [ha] using hargs
      · next ha => simpa only [ha] using hargs
termination_by (sizeOf s.node, 0)

/-- What a call names is read off, and the call that the receiver comes from is recorded. -/
theorem records_calleeOf {tree : List Spot} (ht : IsTree tree) (scope : Scope) (s : Spot)
    (hs : s ∈ tree) (order : List Spot) :
    Records scope tree order [] (calleeOf scope s) fun order' callee =>
      Called scope order s order' callee := by
  rw [calleeOf]
  split
  · rename_i hkind
    have hself : s.unparenthesized = s := Spot.unparenthesized_of_kind (by simp [hkind])
    have hselector : s.selector? = none := by simp [Spot.selector?, hkind]
    refine (records_isBound s.text).bind fun order' bound _ heq => ?_
    subst heq
    cases bound with
    | true => exact .pure (.nothing (by rw [hself, hselector]) (.inr rfl))
    | false =>
      refine .pure (.nothing (by rw [hself, hselector]) (.inl ?_))
      rw [hself]
      exact ⟨hkind, rfl⟩
  · rename_i hkind
    have hself : s.unparenthesized = s := Spot.unparenthesized_of_kind (by simp [hkind])
    split
    · next operand field h hfield =>
      have hlt : sizeOf operand.node < sizeOf s.node := Spot.sizeOf_lt_of_child? h
      have hselector : s.selector? = some (operand, field) := by
        simp [Spot.selector?, hkind, h, hfield]
      have hcalledOn : s.calledOn? = some operand := by simp [Spot.calledOn?, hself, hselector]
      refine (records_importedAs? operand).bind fun order' package _ ⟨heq, hpackage⟩ => ?_
      subst heq
      split
      · next path _ =>
        obtain ⟨hoperand, hpath⟩ := hpackage path rfl
        refine .pure ⟨?_, fun receiver hreceiver c hc => ?_, .refl _ _⟩
        · rw [hself, IsNamedBy, hselector]
          exact .inl ⟨path, hoperand, hpath, rfl⟩
        · rw [hcalledOn, Option.mem_some_iff] at hreceiver
          subst hreceiver
          exact absurd hc (not_comesFrom (fun h => by cases hoperand.symm.trans h.1)
            (by simp [Spot.followed?, hoperand]))
      · refine (records_value ht scope operand (ht.child? hs h) order').bind
          fun order'' receiver _ htraced => ?_
        refine .pure ⟨?_, fun receiver hreceiver c hc => ?_,
          htraced.within.mono (Nat.succ_le_succ (Nat.le_of_lt hlt))⟩
        · rw [hself, IsNamedBy, hselector]
          exact .inr ⟨receiver, rfl⟩
        · rw [hcalledOn, Option.mem_some_iff] at hreceiver
          exact htraced.comes c (hreceiver ▸ hc)
    · rename_i hnone
      exact .pure (.nothing (by rw [hself, Spot.selector?_eq_none hnone]) (.inr rfl))
  · rename_i hkind
    split
    · next inner rest h =>
      have hinner : inner ∈ s.named := h ▸ List.mem_cons_self
      have hlt : sizeOf inner.node < sizeOf s.node := Spot.sizeOf_lt_of_mem_named hinner
      refine (records_calleeOf ht scope inner (ht.named hs hinner) order).mono
        fun _ _ _ hcalled => ?_
      have hself := Spot.unparenthesized_of_cons hkind h
      refine ⟨hself ▸ hcalled.named, fun receiver hreceiver => hcalled.comes receiver ?_,
        hcalled.within.mono (Nat.succ_le_succ (Nat.le_of_lt hlt))⟩
      rwa [Spot.calledOn?, ← hself]
    · rename_i hnil
      have hself := Spot.unparenthesized_of_nil hnil
      exact .pure (.nothing (by rw [hself]; simp [Spot.selector?, hkind]) (.inr rfl))
  · rename_i _ hselector hparenthesized
    have hself := Spot.unparenthesized_of_kind hparenthesized
    exact .pure (.nothing (by rw [hself, Spot.selector?, if_neg hselector]) (.inr rfl))
termination_by (sizeOf s.node, 0)

end

end Walk

end CallImpact
