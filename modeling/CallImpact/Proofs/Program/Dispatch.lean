import CallImpact.Program.Dispatch
import CallImpact.Proofs.Preorder

/-!
# What lookups find

Every lookup of a program finds the number of a function, so every dispatch does
(`lt_size_of_dispatch`). What is found has the name that was looked up, and is a method exactly when
one was looked up (`exists_of_packageFunction?`, `exists_of_lookupMethod?`). A call of a method that
is bound to a function is bound to what its type answers with
(`exists_lookupMethod?_of_dispatch`).
-/

namespace CallImpact.Program

variable {p : Program}

/-! ## The numbers found -/

/-- A declared method is one of the program. -/
theorem lt_size_of_declaredMethod? {t : TypeRef} {method : String} {n : Nat}
    (h : p.declaredMethod? t method = some n) : n < p.size := by
  obtain ⟨⟨f, i⟩, hfind, rfl⟩ := Option.map_eq_some_iff.mp h
  have hmem := List.mem_reverse.mp (List.mem_of_find?_eq_some hfind)
  simpa [size] using (List.mem_zipIdx hmem).2.1

/-- A method is looked up along the depth-first order of the embedded structs. -/
theorem lookupMethod?_eq (t : TypeRef) (method : String) :
    p.lookupMethod? t method = (p.embeddedIn t).findSome? fun u => p.declaredMethod? u method :=
  firstAnswer?_eq _ _ _ t

/-- What is looked up in a type is declared by it or by a type that it embeds. -/
theorem exists_declaredMethod?_of_lookupMethod? {t : TypeRef} {method : String} {n : Nat}
    (h : p.lookupMethod? t method = some n) :
    ∃ u ∈ p.embeddedIn t, p.declaredMethod? u method = some n := by
  rw [lookupMethod?_eq] at h
  exact List.exists_of_findSome?_eq_some h

/-- A method that is looked up is a function of the program. -/
theorem lt_size_of_lookupMethod? {t : TypeRef} {method : String} {n : Nat}
    (h : p.lookupMethod? t method = some n) : n < p.size := by
  obtain ⟨u, -, hu⟩ := exists_declaredMethod?_of_lookupMethod? h
  exact lt_size_of_declaredMethod? hu

/-- A function found in a package is a function of the program. -/
theorem lt_size_of_packageFunction? {package name : String} {n : Nat}
    (h : p.packageFunction? package name = some n) : n < p.size :=
  (List.findIdx?_eq_some_iff_getElem.mp h).1

/-- An entry resolves to a function of the program. -/
theorem lt_size_of_resolveEntry? {file : Option String} {function : String} {n : Nat}
    (h : p.resolveEntry? file function = some n) : n < p.size :=
  (List.findIdx?_eq_some_iff_getElem.mp h).1

/-! ## The functions found -/

/-- What is found in a package is declared there under its name, and is no method. -/
theorem exists_of_packageFunction? {package name : String} {n : Nat}
    (h : p.packageFunction? package name = some n) :
    ∃ f, p.functions[n]? = some f ∧ f.decl.receiver = none ∧ f.name = name ∧
      f.package = package := by
  obtain ⟨hlt, hf, -⟩ := List.findIdx?_eq_some_iff_getElem.mp h
  simp only [Bool.and_eq_true, Option.isNone_iff_eq_none, beq_iff_eq] at hf
  exact ⟨_, List.getElem?_eq_getElem hlt, hf.1.1, hf.2, hf.1.2⟩

/-- What a type declares as a method has the type as its receiver. -/
theorem exists_of_declaredMethod? {t : TypeRef} {method : String} {n : Nat}
    (h : p.declaredMethod? t method = some n) :
    ∃ f, p.functions[n]? = some f ∧ f.receiverType? = some t ∧ f.name = method := by
  obtain ⟨⟨f, i⟩, hfind, rfl⟩ := Option.map_eq_some_iff.mp h
  have hmem := List.mem_reverse.mp (List.mem_of_find?_eq_some hfind)
  have hf := List.find?_some hfind
  simp only [Bool.and_eq_true, beq_iff_eq] at hf
  exact ⟨f, List.mem_zipIdx_iff_getElem?.mp hmem, hf⟩

/-- What is looked up as a method, declared or promoted, is one of that name. -/
theorem exists_of_lookupMethod? {t : TypeRef} {method : String} {n : Nat}
    (h : p.lookupMethod? t method = some n) :
    ∃ f, p.functions[n]? = some f ∧ f.decl.receiver ≠ none ∧ f.name = method := by
  obtain ⟨u, -, hu⟩ := exists_declaredMethod?_of_lookupMethod? h
  obtain ⟨f, hf, hreceiver, hname⟩ := exists_of_declaredMethod? hu
  refine ⟨f, hf, fun hnone => ?_, hname⟩
  rw [Function.receiverType?, hnone] at hreceiver
  cases hreceiver

/-! ## Dispatch -/

/-- A call goes directly only to a function that was found. -/
theorem eq_some_of_directly {found : Option Nat} {n : Nat} (h : directly found = .static n) :
    found = some n := by
  cases found with
  | none => cases h
  | some m =>
    cases h
    rfl

/-- The callee of a static call is a function of the program. -/
theorem lt_size_of_dispatchSite {f : Function} {typeOf : Expr → StaticType} {site : CallSite}
    {n : Nat} (h : p.dispatchSite f typeOf site = .static n) : n < p.size := by
  unfold dispatchSite at h
  split at h
  · exact lt_size_of_packageFunction? (eq_some_of_directly h)
  · exact lt_size_of_packageFunction? (eq_some_of_directly h)
  · split at h
    · split at h
      · cases h
      · exact lt_size_of_lookupMethod? (eq_some_of_directly h)
    · cases h
    · cases h
  · cases h

/-- A call that is direct calls a function of the program. -/
theorem lt_size_of_dispatch {f : Function} {number n : Nat}
    (h : p.dispatch f number = .static n) : n < p.size := by
  unfold dispatch at h
  split at h
  · exact lt_size_of_dispatchSite h
  · cases h

/-- A direct call of a method calls what is looked up in the type of its receiver. -/
theorem exists_lookupMethod?_of_dispatch {f : Function} {number n : Nat} {site : CallSite}
    {receiver : Expr} {method : String} (hsite : f.decl.body.calls[number]? = some site)
    (hcallee : site.callee = .method receiver method) (h : p.dispatch f number = .static n) :
    ∃ t, p.typeOf f (typeSteps - 1) receiver = .named t ∧ p.lookupMethod? t method = some n := by
  simp only [dispatch, hsite, dispatchSite, hcallee] at h
  split at h
  · rename_i t ht
    split at h
    · cases h
    · exact ⟨t, ht, eq_some_of_directly h⟩
  · cases h
  · cases h

@[simp] theorem length_dispatches (f : Function) :
    (p.dispatches f).length = f.decl.body.calls.length := by
  simp [dispatches]

/-- The dispatches of a function are those of its calls by number. -/
theorem getElem?_dispatches {f : Function} {number : Nat} {d : Dispatch} :
    (p.dispatches f)[number]? = some d ↔
      number < f.decl.body.calls.length ∧ p.dispatch f number = d := by
  simp only [dispatches, List.getElem?_map, Option.map_eq_some_iff, List.getElem?_eq_some_iff,
    List.length_range, List.getElem_range]
  constructor
  · rintro ⟨_, ⟨hlt, rfl⟩, rfl⟩
    exact ⟨hlt, rfl⟩
  · rintro ⟨hlt, rfl⟩
    exact ⟨number, ⟨hlt, rfl⟩, rfl⟩

/-- Each dispatch of a function is that of one of its calls. -/
theorem exists_dispatch_of_mem {f : Function} {d : Dispatch} (h : d ∈ p.dispatches f) :
    ∃ number, p.dispatch f number = d := by
  obtain ⟨number, -, hd⟩ := List.mem_map.mp h
  exact ⟨number, hd⟩

end CallImpact.Program
