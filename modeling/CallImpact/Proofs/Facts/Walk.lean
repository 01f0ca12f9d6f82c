import CallImpact.Facts.Extract
import CallImpact.Proofs.Facts.Numbering

/-!
# Numbers in visited bodies

The visit of a body gives numbered facts, whatever its syntax tree is (`isNumbered_bodyFacts`). The
invariant is `Walker.IsSound`: the facts so far are numbered, and the numbers that are remembered
belong to calls. `Keeps n m post` says that a step keeps it, starting with at least `n` calls, and
what the step gives, with the number of calls after it. Calls are only ever added, so what is below
the number of calls stays so.
-/

namespace CallImpact

/-- Whether all numbers that are known while a body is visited belong to calls. -/
structure Walker.IsSound (w : Walker) : Prop where
  facts : w.facts.IsNumbered
  recorded : ∀ entry ∈ w.recorded, entry.2 < w.facts.calls.length

/-- The number of calls so far. -/
def Walker.count (w : Walker) : Nat :=
  w.facts.calls.length

namespace Walk

open Go (Node Spot)

/-- A step keeps a visit sound and its calls, and what it gives has a property. -/
def Keeps {α : Type} (n : Nat) (m : Walk α) (post : Nat → α → Prop) : Prop :=
  ∀ w : Walker, w.IsSound → n ≤ w.count →
    (m w).2.IsSound ∧ n ≤ (m w).2.count ∧ post (m w).2.count (m w).1

/-- A step about whose result nothing is said. -/
abbrev KeepsOnly {α : Type} (n : Nat) (m : Walk α) : Prop :=
  Keeps n m fun _ _ => True

namespace Keeps

variable {α β : Type} {n : Nat} {post : Nat → α → Prop}

/-- A value keeps a visit as it is. -/
protected theorem pure {a : α} (h : ∀ k, n ≤ k → post k a) : Keeps n (pure a) post :=
  fun w hw hn => ⟨hw, hn, h w.count hn⟩

/-- What comes after a step may rely on what that keeps. -/
protected theorem bind {m : Walk α} {next : α → Walk β} {post' : Nat → β → Prop}
    (hm : Keeps n m post) (hnext : ∀ k a, n ≤ k → post k a → Keeps k (next a) post') :
    Keeps n (m >>= next) post' := by
  intro w hw hn
  obtain ⟨hsound, hcount, hpost⟩ := hm w hw hn
  obtain ⟨hsound', hcount', hpost'⟩ := hnext _ (m w).1 hcount hpost (m w).2 hsound (Nat.le_refl _)
  exact ⟨hsound', Nat.le_trans hcount hcount', hpost'⟩

/-- Steps for the elements of a list, whose results stay as they are while calls are added. -/
protected theorem mapM {f : β → Walk α} {xs : List β}
    (h : ∀ x ∈ xs, ∀ k, n ≤ k → Keeps k (f x) post)
    (hpost : ∀ a k k', k ≤ k' → post k a → post k' a) :
    Keeps n (xs.mapM f) fun k as => ∀ a ∈ as, post k a := by
  induction xs generalizing n with
  | nil => exact .pure fun _ _ => by simp
  | cons x xs ih =>
    rw [List.mapM_cons]
    refine (h x List.mem_cons_self n (Nat.le_refl n)).bind fun k a hk ha => ?_
    refine (ih fun y hy k' hk' => h y (List.mem_cons_of_mem x hy) k' (Nat.le_trans hk hk')).bind
      fun k' as hk' has => ?_
    refine .pure fun k'' hk'' => List.forall_mem_cons.mpr ⟨?_, fun b hb => ?_⟩
    · exact hpost a k k'' (Nat.le_trans hk' hk'') ha
    · exact hpost b k' k'' hk'' (has b hb)

/-- A loop whose steps keep a visit sound. -/
protected theorem forIn {f : β → PUnit → Walk (ForInStep PUnit)} {xs : List β}
    (h : ∀ x ∈ xs, ∀ u k, n ≤ k → KeepsOnly k (f x u)) (u : PUnit) :
    KeepsOnly n (forIn xs u f) := by
  induction xs generalizing n u with
  | nil => exact .pure fun _ _ => trivial
  | cons x xs ih =>
    rw [List.forIn_cons]
    refine (h x List.mem_cons_self u n (Nat.le_refl n)).bind fun k step hk _ => ?_
    cases step with
    | done u => exact .pure fun _ _ => trivial
    | yield u =>
      exact ih (fun y hy v k' hk' => h y (List.mem_cons_of_mem x hy) v k' (Nat.le_trans hk hk')) u

end Keeps

/-! ## Steps -/

variable {n : Nat}

/-- To bind a name keeps a visit sound. -/
theorem keeps_bindName (name : String) : KeepsOnly n (bindName name) :=
  fun _ hw hn => ⟨⟨hw.facts, hw.recorded⟩, hn, trivial⟩

/-- To look whether a name is bound keeps a visit sound. -/
theorem keeps_isBound (name : String) : KeepsOnly n (isBound name) :=
  fun _ hw hn => ⟨hw, hn, trivial⟩

/-- To look which package a name stands for keeps a visit sound. -/
theorem keeps_importedAs? (scope : Scope) (s : Spot) : KeepsOnly n (importedAs? scope s) := by
  unfold importedAs?
  split
  · refine (keeps_isBound s.text).bind fun k bound _ _ => ?_
    cases bound with
    | true => exact .pure fun _ _ => trivial
    | false => exact .pure fun _ _ => trivial
  · exact .pure fun _ _ => trivial

/-- Recording facts keeps a visit sound when it adds no calls and only values that refer to calls.
-/
theorem keeps_record {f : BodyFacts → BodyFacts} (hcalls : ∀ b, (f b).calls = b.calls)
    (hvalues : ∀ b k, n ≤ k → (∀ e ∈ b.values, e.Below k) → ∀ e ∈ (f b).values, e.Below k) :
    KeepsOnly n (record f) := by
  intro w hw hn
  have hcount : (f w.facts).calls.length = w.facts.calls.length := by rw [hcalls]
  refine ⟨⟨⟨?_, fun number site hsite => ?_⟩, fun entry hentry => ?_⟩, ?_, trivial⟩
  · change ∀ e ∈ (f w.facts).values, e.Below (f w.facts).calls.length
    rw [hcount]
    exact hvalues w.facts _ hn hw.facts.values
  · change (f w.facts).calls[number]? = some site at hsite
    rw [hcalls] at hsite
    exact hw.facts.calls number site hsite
  · change entry.2 < (f w.facts).calls.length
    rw [hcount]
    exact hw.recorded entry hentry
  · change n ≤ (f w.facts).calls.length
    rw [hcount]
    exact hn

section
variable {given : Expr} (h : given.Below n)
include h

/-- To record an assignment of a numbered value keeps a visit sound. -/
theorem keeps_recordAssign (name : String) :
    KeepsOnly n (record fun f => { f with assigns := f.assigns ++ [(name, given)] }) := by
  refine keeps_record (fun _ => rfl) fun b k hk hb => ?_
  obtain ⟨hassigns, hrest⟩ := BodyFacts.forall_mem_values.mp hb
  refine BodyFacts.forall_mem_values.mpr ⟨List.forall_mem_append.mpr ⟨hassigns, ?_⟩, hrest⟩
  exact List.forall_mem_singleton.mpr (h.mono hk)

/-- To record a numbered value in a field keeps a visit sound. -/
theorem keeps_recordStore {base : Expr} (hbase : base.Below n) (field : String) :
    KeepsOnly n (record fun f =>
      { f with fieldStores := f.fieldStores ++ [{ base, field, value := given }] }) := by
  refine keeps_record (fun _ => rfl) fun b k hk hb => ?_
  obtain ⟨hassigns, hstores, hrest⟩ := BodyFacts.forall_mem_values.mp hb
  refine BodyFacts.forall_mem_values.mpr
    ⟨hassigns, List.forall_mem_append.mpr ⟨hstores, ?_⟩, hrest⟩
  exact List.forall_mem_singleton.mpr ⟨hbase.mono hk, h.mono hk⟩

/-- To record a numbered value that a field has from the start keeps a visit sound. -/
theorem keeps_recordInit (type : TypeRef) (field : String) :
    KeepsOnly n (record fun f =>
      { f with fieldInits := f.fieldInits ++ [{ type, field, value := given }] }) := by
  refine keeps_record (fun _ => rfl) fun b k hk hb => ?_
  obtain ⟨hassigns, hstores, hinits, hreturns⟩ := BodyFacts.forall_mem_values.mp hb
  refine BodyFacts.forall_mem_values.mpr
    ⟨hassigns, hstores, List.forall_mem_append.mpr ⟨hinits, ?_⟩, hreturns⟩
  exact List.forall_mem_singleton.mpr (h.mono hk)

/-- To record that a numbered value is returned keeps a visit sound. -/
theorem keeps_recordReturn :
    KeepsOnly n (record fun f => { f with returns := f.returns ++ [given] }) := by
  refine keeps_record (fun _ => rfl) fun b k hk hb => ?_
  obtain ⟨hassigns, hstores, hinits, hreturns⟩ := BodyFacts.forall_mem_values.mp hb
  refine BodyFacts.forall_mem_values.mpr
    ⟨hassigns, hstores, hinits, List.forall_mem_append.mpr ⟨hreturns, ?_⟩⟩
  exact List.forall_mem_singleton.mpr (h.mono hk)

end

/-- Recording types adds no values. -/
theorem keeps_recordTypes {f : BodyFacts → BodyFacts} (hcalls : ∀ b, (f b).calls = b.calls)
    (hvalues : ∀ b, (f b).values = b.values) : KeepsOnly n (record f) := by
  refine keeps_record hcalls fun b k _ hb => ?_
  rw [hvalues]
  exact hb

/-- A call that is recorded has its number below the number of calls. -/
theorem keeps_recorded? (s : Spot) :
    Keeps n (recorded? s) fun k found => ∀ number ∈ found, number < k := by
  intro w hw hn
  refine ⟨hw, hn, fun number hnumber => ?_⟩
  obtain ⟨before, after, heq, -⟩ := List.lookup_eq_some_iff.mp hnumber
  refine hw.recorded (s.path, number) ?_
  rw [heq]
  simp

/-- A call whose values refer to earlier calls is recorded with the next number. -/
theorem keeps_recordCall (s : Spot) {site : CallSite} (h : ∀ e ∈ site.values, e.Below n) :
    Keeps n (recordCall s site) fun k number => number < k := by
  intro w hw hn
  have hcount : (w.facts.calls ++ [site]).length = w.facts.calls.length + 1 := by simp
  refine ⟨⟨⟨fun e he => ?_, fun number found hfound => ?_⟩, fun entry hentry => ?_⟩, ?_, ?_⟩
  · change e.Below (w.facts.calls ++ [site]).length
    rw [hcount]
    exact (hw.facts.values e he).mono (Nat.le_succ _)
  · change (w.facts.calls ++ [site])[number]? = some found at hfound
    rcases Nat.lt_or_ge number w.facts.calls.length with hlt | hge
    · rw [List.getElem?_append_left hlt] at hfound
      exact hw.facts.calls number found hfound
    · rw [List.getElem?_append_right hge] at hfound
      obtain rfl := List.mem_singleton.mp (List.mem_of_getElem? hfound)
      exact fun e he => (h e he).mono (Nat.le_trans hn hge)
  · change entry.2 < (w.facts.calls ++ [site]).length
    rw [hcount]
    rcases List.mem_cons.mp hentry with rfl | hentry
    · exact Nat.lt_succ_self _
    · exact Nat.lt_succ_of_lt (hw.recorded entry hentry)
  · change n ≤ (w.facts.calls ++ [site]).length
    rw [hcount]
    exact Nat.le_succ_of_le hn
  · change w.facts.calls.length < (w.facts.calls ++ [site]).length
    rw [hcount]
    exact Nat.lt_succ_self _

/-- A call is recorded after its arguments, whose values come from smaller nodes. -/
theorem keeps_recordArguments {scope : Scope} {s arguments : Spot} {callee : Callee}
    (h : s.child? .arguments = some arguments) (hcallee : callee.Below n)
    (hvalue : ∀ a : Spot, sizeOf a.node < sizeOf s.node → ∀ k,
      Keeps k (value scope a) fun k e => e.Below k) :
    Keeps n
      (do
        let args ← arguments.named.attach.mapM fun a => value scope a.1
        recordCall s { line := arguments.node.startLine, callee, args })
      fun k number => number < k := by
  have hsize : ∀ a ∈ arguments.named, sizeOf a.node < sizeOf s.node := fun a ha =>
    Nat.lt_trans (Spot.sizeOf_lt_of_mem_named ha) (Spot.sizeOf_lt_of_child? h)
  have hargs : Keeps n (arguments.named.attach.mapM fun a => value scope a.1)
      fun k args => ∀ e ∈ args, e.Below k :=
    .mapM (fun a _ k _ => hvalue a.1 (hsize a.1 a.2) k) fun _ _ _ hk he => he.mono hk
  refine hargs.bind fun k args hk hargs => ?_
  exact keeps_recordCall s (CallSite.below_of_mem_values (hcallee.mono hk) hargs)

/-! ## Values

One proof for each of the three functions that call one another, by the size of the node. -/

mutual

/-- A value refers to calls that are recorded. -/
theorem keeps_value (scope : Scope) (s : Spot) (n : Nat) :
    Keeps n (value scope s) fun k e => e.Below k := by
  rw [value]
  split
  · exact .pure fun _ _ => trivial
  · split
    · next operand field h _ =>
      have : sizeOf operand.node < sizeOf s.node := Spot.sizeOf_lt_of_child? h
      refine (keeps_importedAs? scope operand).bind fun k package _ _ => ?_
      split
      · exact .pure fun _ _ => trivial
      · refine (keeps_value scope operand k).bind fun k' base _ hbase => ?_
        exact .pure fun _ hk => hbase.mono hk
    · exact .pure fun _ _ => trivial
  · split
    · exact .pure fun _ _ => trivial
    · exact .pure fun _ _ => trivial
  · split
    · next operand h =>
      have : sizeOf operand.node < sizeOf s.node := Spot.sizeOf_lt_of_child? h
      split
      · exact keeps_value scope operand n
      · exact .pure fun _ _ => trivial
    · exact .pure fun _ _ => trivial
  · split
    · next inner rest h =>
      have : sizeOf inner.node < sizeOf s.node :=
        Spot.sizeOf_lt_of_mem_named (h ▸ List.mem_cons_self)
      exact keeps_value scope inner n
    · exact .pure fun _ _ => trivial
  · split
    · exact .pure fun _ _ => trivial
    · refine (keeps_call scope s n).bind fun k number _ hnumber => ?_
      exact .pure fun _ hk => Nat.lt_of_lt_of_le hnumber hk
  · split
    · next operand h =>
      have : sizeOf operand.node < sizeOf s.node := Spot.sizeOf_lt_of_child? h
      refine (keeps_value scope operand n).bind fun k base _ hbase => ?_
      split
      · exact .pure fun _ hk => hbase.mono hk
      · exact .pure fun _ _ => trivial
    · exact .pure fun _ _ => trivial
  · exact .pure fun _ _ => trivial
termination_by (sizeOf s.node, 1)

/-- The number of a call belongs to a call that is recorded. -/
theorem keeps_call (scope : Scope) (s : Spot) (n : Nat) :
    Keeps n (call scope s) fun k number => number < k := by
  rw [call]
  refine (keeps_recorded? s).bind fun k found _ hfound => ?_
  cases found with
  | some number => exact .pure fun _ hk => Nat.lt_of_lt_of_le (hfound number rfl) hk
  | none =>
    have hvalue : ∀ a : Spot, sizeOf a.node < sizeOf s.node → ∀ k,
        Keeps k (value scope a) fun k e => e.Below k := fun a _ k => keeps_value scope a k
    dsimp only
    split
    · next function h =>
      have : sizeOf function.node < sizeOf s.node := Spot.sizeOf_lt_of_child? h
      refine (keeps_calleeOf scope function k).bind fun k' callee _ hcallee => ?_
      split
      · next arguments ha => exact keeps_recordArguments ha hcallee hvalue
      · exact keeps_recordCall s (CallSite.below_of_mem_values hcallee (by simp))
    · have hcallee : Callee.indirect.Below k := trivial
      rw [pure_bind]
      split
      · next arguments ha => exact keeps_recordArguments ha hcallee hvalue
      · exact keeps_recordCall s (CallSite.below_of_mem_values hcallee (by simp))
termination_by (sizeOf s.node, 0)

/-- The receiver of what a call names refers to calls that are recorded. -/
theorem keeps_calleeOf (scope : Scope) (s : Spot) (n : Nat) :
    Keeps n (calleeOf scope s) fun k callee => callee.Below k := by
  rw [calleeOf]
  split
  · refine (keeps_isBound s.text).bind fun k bound _ _ => ?_
    cases bound with
    | true => exact .pure fun _ _ => trivial
    | false => exact .pure fun _ _ => trivial
  · split
    · next operand field h _ =>
      have : sizeOf operand.node < sizeOf s.node := Spot.sizeOf_lt_of_child? h
      refine (keeps_importedAs? scope operand).bind fun k package _ _ => ?_
      cases package with
      | some package => exact .pure fun _ _ => trivial
      | none =>
        refine (keeps_value scope operand k).bind fun k' receiver _ hreceiver => ?_
        exact .pure fun _ hk => hreceiver.mono hk
    · exact .pure fun _ _ => trivial
  · split
    · next inner rest h =>
      have : sizeOf inner.node < sizeOf s.node :=
        Spot.sizeOf_lt_of_mem_named (h ▸ List.mem_cons_self)
      exact keeps_calleeOf scope inner n
    · exact .pure fun _ _ => trivial
  · exact .pure fun _ _ => trivial
termination_by (sizeOf s.node, 0)

end

/-! ## Bindings and literals -/

/-- To bind a numbered value to what it is assigned to keeps a visit sound. -/
theorem keeps_bindTarget (scope : Scope) (target : Spot) {given : Expr} (h : given.Below n) :
    KeepsOnly n (bindTarget scope target given) := by
  unfold bindTarget
  split
  · split
    · exact .pure fun _ _ => trivial
    · refine (keeps_bindName target.text).bind fun k _ hk _ => ?_
      exact keeps_recordAssign (h.mono hk) target.text
  · split
    · next operand field _ _ =>
      refine (keeps_value scope operand n).bind fun k base hk hbase => ?_
      exact keeps_recordStore (h.mono hk) hbase field.text
    · exact .pure fun _ _ => trivial
  · exact .pure fun _ _ => trivial

/-- The values for targets refer to calls that are recorded. -/
theorem keeps_valuesFor (scope : Scope) (targets : Nat) (right : List Spot) :
    Keeps n (valuesFor scope targets right) fun k es => ∀ e ∈ es, e.Below k := by
  unfold valuesFor
  split
  · exact .mapM (fun s _ k _ => keeps_value scope s k) fun _ _ _ hk he => he.mono hk
  · split
    · next first _ _ =>
      refine (keeps_value scope first n).bind fun k e _ he => ?_
      refine .pure fun k' hk' e' he' => ?_
      rcases List.mem_cons.mp (List.mem_of_mem_take he') with rfl | hmem
      · exact he.mono hk'
      · rw [List.eq_of_mem_replicate hmem]
        trivial
    · refine .pure fun k _ e he => ?_
      rw [List.eq_of_mem_replicate he]
      trivial

/-- To bind the sides of an assignment keeps a visit sound. -/
theorem keeps_bindAll (scope : Scope) (left right : List Spot) :
    KeepsOnly n (bindAll scope left right) := by
  unfold bindAll
  refine (keeps_valuesFor scope left.length right).bind fun k given _ hgiven => ?_
  refine .forIn (fun x hx u k' hk' => ?_) _
  have hbelow : x.2.Below k' := (hgiven x.2 (List.of_mem_zip hx).2).mono hk'
  refine (keeps_bindTarget scope x.1 hbelow).bind fun _ _ _ _ => .pure fun _ _ => trivial

/-- A loop that binds names. -/
theorem keeps_bindNames {α : Type} (xs : List α) (name : α → String) :
    KeepsOnly n (do for x in xs do bindName (name x)) := by
  refine Keeps.bind (Keeps.forIn (fun x _ _ k _ => ?_) _) fun _ _ _ _ => .pure fun _ _ => trivial
  exact (keeps_bindName (name x)).bind fun _ _ _ _ => .pure fun _ _ => trivial

/-- To visit a declaration of variables keeps a visit sound. -/
theorem keeps_varSpec (scope : Scope) (s : Spot) : KeepsOnly n (varSpec scope s) := by
  unfold varSpec
  dsimp only
  split
  · refine Keeps.bind (keeps_recordTypes (fun _ => rfl) fun _ => rfl) fun k _ _ _ => ?_
    exact (keeps_bindAll scope _ _).bind fun k' _ _ _ => keeps_bindNames _ _
  · exact (keeps_bindAll scope _ _).bind fun k' _ _ _ => keeps_bindNames _ _

/-- To visit an element of a literal keeps a visit sound. -/
theorem keeps_fieldInit (scope : Scope) (type : TypeRef) (element : Spot) :
    KeepsOnly n (fieldInit scope type element) := by
  unfold fieldInit
  dsimp only
  split
  · next key given _ _ =>
    split
    · refine (keeps_value scope given n).bind fun k value _ hvalue => ?_
      exact keeps_recordInit hvalue type key.text
    · exact .pure fun _ _ => trivial
  · exact .pure fun _ _ => trivial

/-- To visit a literal keeps a visit sound. -/
theorem keeps_composite (scope : Scope) (s : Spot) : KeepsOnly n (composite scope s) := by
  unfold composite
  split
  · exact .pure fun _ _ => trivial
  · next type _ =>
    refine Keeps.bind (keeps_recordTypes (fun _ => rfl) fun _ => rfl) fun k _ _ _ => ?_
    split
    · exact .pure fun _ _ => trivial
    · refine Keeps.bind (Keeps.forIn (fun element _ _ k _ => ?_) _) fun _ _ _ _ =>
        .pure fun _ _ => trivial
      exact (keeps_fieldInit scope type element).bind fun _ _ _ _ => .pure fun _ _ => trivial

/-! ## The visit -/

/-- To enter a node keeps a visit sound. -/
theorem keeps_enter (scope : Scope) (s : Spot) : KeepsOnly n (enter scope s) := by
  unfold enter
  split
  · split
    · exact keeps_recordTypes (fun _ => rfl) fun _ => rfl
    · exact (keeps_call scope s n).bind fun _ _ _ _ => .pure fun _ _ => trivial
  · exact keeps_composite scope s
  · exact keeps_bindAll scope _ _
  · split
    · exact keeps_bindAll scope _ _
    · exact .pure fun _ _ => trivial
  · exact keeps_varSpec scope s
  · split
    · next first _ =>
      exact (keeps_value scope first n).bind fun k value _ hvalue => keeps_recordReturn hvalue
    · exact .pure fun _ _ => trivial
  · split
    · refine Keeps.bind (Keeps.forIn (fun param _ _ k _ => ?_) _) fun _ _ _ _ =>
        .pure fun _ _ => trivial
      have hbind : ∀ k name, KeepsOnly k (do bindName name; return ForInStep.yield PUnit.unit) :=
        fun k name => (keeps_bindName name).bind fun _ _ _ _ => .pure fun _ _ => trivial
      split
      · next name _ =>
        dsimp only
        split
        · refine Keeps.bind (keeps_recordTypes (fun _ => rfl) fun _ => rfl) fun k _ _ _ => ?_
          exact hbind k name
        · exact hbind k name
      · exact .pure fun _ _ => trivial
    · exact .pure fun _ _ => trivial
  · split
    · exact keeps_bindNames _ _
    · exact .pure fun _ _ => trivial
  · exact .pure fun _ _ => trivial

mutual

/-- The visit of a node keeps a visit sound. -/
theorem keeps_visit (scope : Scope) (path : List Nat) (node : Node) (n : Nat) :
    KeepsOnly n (visit scope path node) := by
  cases node with
  | mk kind role text extent children =>
    rw [visit]
    exact (keeps_enter scope _).bind fun k _ _ _ => keeps_visitAll scope path 0 children k

/-- To visit siblings keeps a visit sound. -/
theorem keeps_visitAll (scope : Scope) (path : List Nat) (position : Nat) (nodes : List Node)
    (n : Nat) : KeepsOnly n (visitAll scope path position nodes) := by
  cases nodes with
  | nil =>
    rw [visitAll]
    exact .pure fun _ _ => trivial
  | cons node nodes =>
    rw [visitAll]
    exact (keeps_visit scope _ node n).bind fun k _ _ _ => keeps_visitAll scope path _ nodes k

end

end Walk

/-- Facts of a body are numbered, whatever the body is. -/
theorem Scope.isNumbered_bodyFacts (scope : Scope) (names : List String) (body : Option Go.Node) :
    (scope.bodyFacts names body).IsNumbered := by
  have hempty : ({} : BodyFacts).IsNumbered :=
    ⟨fun e he => (List.not_mem_nil he).elim, fun number site hsite => by simp at hsite⟩
  cases body with
  | none => exact hempty
  | some body =>
    have hstart : ({ locals := names } : Walker).IsSound :=
      ⟨hempty, fun entry hentry => (List.not_mem_nil hentry).elim⟩
    exact (Walk.keeps_visit scope [] body 0 _ hstart (Nat.zero_le _)).1.facts

/-- The facts of a function are those of its body, with its parameters bound. -/
theorem exists_bodyFacts_of_function? {scope : Scope} {decl : Go.Node} {f : FuncDecl}
    (h : scope.function? decl = some f) :
    ∃ names, f.body = scope.bodyFacts names (decl.child? .body) := by
  unfold Scope.function? at h
  obtain ⟨name, -, h⟩ := Option.bind_eq_some_iff.mp h
  split at h
  · obtain ⟨receiver, -, h⟩ := Option.bind_eq_some_iff.mp h
    cases h
    exact ⟨_, rfl⟩
  · cases h
    exact ⟨_, rfl⟩

/-- The functions that a file declares have numbered facts. -/
theorem isNumbered_of_mem_extractFile {root : Go.Node} {path package : String} {f : FuncDecl}
    (h : f ∈ (extractFile root path package).functions) : f.body.IsNumbered := by
  obtain ⟨decl, -, hf⟩ := List.mem_filterMap.mp h
  obtain ⟨names, hbody⟩ := exists_bodyFacts_of_function? hf
  rw [hbody]
  exact Scope.isNumbered_bodyFacts _ _ _

end CallImpact
