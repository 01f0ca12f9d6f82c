import CallImpact.Facts.Extract
import CallImpact.Program
import CallImpact.Proofs.Names
import CallImpact.Spans
import Mathlib.Data.List.Forall2

/-!
# Spans and extracted functions

The functions that are extracted from a file and the spans of its declarations are found apart, but
they agree one by one (`extracted_agree`): in their lines, and in that the name of a span is the
canonical name of the function. Methods whose receiver cannot be read have a span only
(`isReadable`).
-/

namespace CallImpact

open Go (Node)

/-- Whether a declaration is no method, or a method whose receiver can be read. -/
def isReadable (decl : Node) : Bool :=
  decl.kind != .methodDeclaration || (receiver? decl).isSome

/-- Whether a span is that of a function of a package. -/
structure Agrees (package : String) (f : FuncDecl) (span : FunctionSpan) : Prop where
  name : span.qualifiedName =
    canonicalName (fullName package (f.receiver.map fun r => (r.type, r.pointer)) f.name)
  startLine : span.startLine = f.lineStart
  endLine : span.endLine = f.lineEnd

/-- The function of a declaration, if it declares one. -/
def extracted? (scope : Scope) (decl : Node) : Option FuncDecl :=
  if isFunctionDecl decl then scope.function? decl else none

/-- The span of a declaration that can be read, if it has one. -/
def readableSpan? (package : String) (decl : Node) : Option FunctionSpan :=
  if isReadable decl then spanOf? package decl else none

/-! ## One declaration -/

/-- A function and a span that were read from one declaration with a name and a receiver. -/
structure Twins (package : String) (receiver : Option Receiver) (name : String) (f : FuncDecl)
    (span : FunctionSpan) : Prop where
  receiver_eq : f.receiver = receiver
  name_eq : f.name = name
  qualified : span.qualifiedName = plainName package (receiver.map (·.type)) name
  startLine : span.startLine = f.lineStart
  endLine : span.endLine = f.lineEnd

/-- A function and a span of one declaration agree when the package is undecorated and the receiver
is a word. -/
theorem Twins.agrees {package name : String} {receiver : Option Receiver} {f : FuncDecl}
    {span : FunctionSpan} (h : Twins package receiver name f span) (hp : IsUndecorated package)
    (hw : ∀ r ∈ f.receiver, IsWord r.type) : Agrees package f span := by
  obtain ⟨rfl, rfl, hname, hstart, hend⟩ := h
  refine ⟨?_, hstart, hend⟩
  have hword : ∀ r ∈ f.receiver.map fun r => (r.type, r.pointer), IsWord r.1 := by
    intro r hr
    obtain ⟨r', hr', rfl⟩ := Option.map_eq_some_iff.mp hr
    exact hw r' hr'
  rw [canonicalName_fullName hp hword, Option.map_map]
  exact hname

section
variable {scope : Scope} {package : String} {decl name : Node}

/-- A function with a name gives a function and a span, and so does a method when its receiver can
be read as well. -/
theorem exists_twins (scope : Scope) (hname : decl.child? .name = some name)
    (hkind : decl.kind = .functionDeclaration ∨
      (decl.kind = .methodDeclaration ∧ (receiver? decl).isSome)) :
    ∃ receiver f span, extracted? scope decl = some f ∧ readableSpan? package decl = some span ∧
      Twins package receiver name.text f span := by
  have hfunction : isFunctionDecl decl := by
    rcases hkind with hk | ⟨hk, -⟩
    · rw [isFunctionDecl, hk]; rfl
    · rw [isFunctionDecl, hk]; rfl
  have hreadable : isReadable decl := by
    rcases hkind with hk | ⟨-, hr⟩
    · rw [isReadable, hk]; rfl
    · rw [isReadable, hr, Bool.or_true]
  rw [extracted?, if_pos hfunction, Scope.function?, hname, readableSpan?, if_pos hreadable,
    spanOf?, hname]
  rcases hkind with hk | ⟨hk, hr⟩
  · have hmethod : (Go.Kind.functionDeclaration == .methodDeclaration) = false := rfl
    simp only [hk, hmethod]
    exact ⟨none, _, _, rfl, rfl, rfl, rfl, rfl, rfl, rfl⟩
  · obtain ⟨r, hr⟩ := Option.isSome_iff_exists.mp hr
    have hmethod : (Go.Kind.methodDeclaration == .methodDeclaration) = true := rfl
    simp only [hk, hmethod, hr]
    exact ⟨some r, _, _, rfl, rfl, rfl, rfl, rfl, rfl, rfl⟩

/-- A declaration without a name gives neither a function nor a span. -/
theorem none_of_name (hname : decl.child? .name = none) :
    extracted? scope decl = none ∧ readableSpan? package decl = none := by
  refine ⟨?_, ?_⟩
  · rw [extracted?, Scope.function?, hname]
    split
    · rfl
    · rfl
  · unfold readableSpan? spanOf?
    rw [hname]
    split
    · split
      · rfl
      · rfl
      · rfl
    · rfl

/-- A method whose receiver cannot be read gives no function, and its span is left out. -/
theorem none_of_receiver (hk : decl.kind = .methodDeclaration) (hr : receiver? decl = none) :
    extracted? scope decl = none ∧ readableSpan? package decl = none := by
  have hmethod : (Go.Kind.methodDeclaration == .methodDeclaration) = true := rfl
  refine ⟨?_, ?_⟩
  · unfold extracted? Scope.function?
    split
    · cases hname : decl.child? .name with
      | none => rfl
      | some name => simp only [hk, hmethod, hr]; rfl
    · rfl
  · rw [readableSpan?, isReadable, hk, hr]
    rfl

/-- What declares neither a function nor a method gives neither a function nor a span. -/
theorem none_of_kind (hf : decl.kind ≠ .functionDeclaration) (hm : decl.kind ≠ .methodDeclaration) :
    extracted? scope decl = none ∧ readableSpan? package decl = none := by
  refine ⟨?_, ?_⟩
  · unfold extracted? isFunctionDecl
    rw [if_neg]
    cases hk : decl.kind <;> first | exact absurd hk hf | exact absurd hk hm | decide
  · unfold readableSpan? spanOf?
    split
    · split
      · exact absurd ‹_› hf
      · exact absurd ‹_› hm
      · rfl
    · rfl

/-- A declaration gives a function and a span that agree, or neither. -/
theorem extracted?_agree (hp : IsUndecorated package)
    (hw : ∀ f ∈ extracted? scope decl, ∀ r ∈ f.receiver, IsWord r.type) :
    (extracted? scope decl = none ∧ readableSpan? package decl = none) ∨
    ∃ f span, extracted? scope decl = some f ∧ readableSpan? package decl = some span ∧
      Agrees package f span := by
  cases hname : decl.child? .name with
  | none => exact .inl (none_of_name hname)
  | some name =>
    by_cases hkind : decl.kind = .functionDeclaration ∨
        (decl.kind = .methodDeclaration ∧ (receiver? decl).isSome)
    · obtain ⟨_, f, span, hex, hspan, htwins⟩ := exists_twins scope hname hkind
      exact .inr ⟨f, span, hex, hspan, htwins.agrees hp (hw f hex)⟩
    · obtain ⟨hf, hreceiver⟩ := not_or.mp hkind
      by_cases hm : decl.kind = .methodDeclaration
      · exact .inl (none_of_receiver hm (Option.not_isSome_iff_eq_none.mp fun hr =>
          hreceiver ⟨hm, hr⟩))
      · exact .inl (none_of_kind hf hm)

end

/-! ## Files -/

/-- What two ways of reading the elements of a list give agrees one by one, when it does for each
element. -/
theorem forall₂_filterMap {α β γ : Type} {R : β → γ → Prop} {f : α → Option β} {g : α → Option γ}
    {xs : List α}
    (h : ∀ x ∈ xs, (f x = none ∧ g x = none) ∨ ∃ b c, f x = some b ∧ g x = some c ∧ R b c) :
    List.Forall₂ R (xs.filterMap f) (xs.filterMap g) := by
  induction xs with
  | nil => exact .nil
  | cons x xs ih =>
    have hxs := ih fun y hy => h y (List.mem_cons_of_mem x hy)
    rcases h x List.mem_cons_self with ⟨hf, hg⟩ | ⟨b, c, hf, hg, hbc⟩
    · rw [List.filterMap_cons_none hf, List.filterMap_cons_none hg]
      exact hxs
    · rw [List.filterMap_cons_some hf, List.filterMap_cons_some hg]
      exact .cons hbc hxs

/-- In lists that correspond, each element of the second has one of the first. -/
theorem exists_of_forall₂ {α β : Type} {R : α → β → Prop} {xs : List α} {ys : List β}
    (h : List.Forall₂ R xs ys) {y : β} (hy : y ∈ ys) : ∃ x ∈ xs, R x y := by
  induction h with
  | nil => cases hy
  | @cons x _ xs _ hx _ ih =>
    rcases List.mem_cons.mp hy with rfl | hy
    · exact ⟨x, List.mem_cons_self, hx⟩
    · obtain ⟨x', hmem, hx'⟩ := ih hy
      exact ⟨x', List.mem_cons_of_mem x hmem, hx'⟩

@[simp] theorem path_extractFile (root : Node) (path package : String) :
    (extractFile root path package).path = path := rfl

@[simp] theorem packagePath_extractFile (root : Node) (path package : String) :
    (extractFile root path package).packagePath = package := rfl

/-- The functions of a file are those of the top-level declarations that can be extracted. -/
theorem functions_extractFile (root : Node) (path package : String) :
    (extractFile root path package).functions =
      root.named.filterMap (extracted? { packagePath := package, imports := importsOf root }) := by
  simp only [extractFile, List.filterMap_filter]
  rfl

/-- The spans of the declarations of a file that can be read, in order. -/
def readableSpans (root : Node) (package : String) : List FunctionSpan :=
  (root.named.filter isReadable).filterMap (spanOf? package)

/-- The readable spans of a file are those of its top-level declarations that have one. -/
theorem readableSpans_eq (root : Node) (package : String) :
    readableSpans root package = root.named.filterMap (readableSpan? package) := by
  simp only [readableSpans, List.filterMap_filter]
  rfl

/-- The functions that are extracted from a file agree with the spans of its declarations, one by
one and in order. -/
theorem extracted_agree {root : Node} {path package : String} (hp : IsUndecorated package)
    (hw : ∀ f ∈ (extractFile root path package).functions, ∀ r ∈ f.receiver, IsWord r.type) :
    List.Forall₂ (Agrees package) (extractFile root path package).functions
      (readableSpans root package) := by
  rw [functions_extractFile] at hw ⊢
  rw [readableSpans_eq]
  refine forall₂_filterMap fun decl hdecl => extracted?_agree hp fun f hf => hw f ?_
  exact List.mem_filterMap.mpr ⟨decl, hdecl, hf⟩

end CallImpact
