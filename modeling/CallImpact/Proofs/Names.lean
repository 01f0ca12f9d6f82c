import CallImpact.Go.Token
import CallImpact.Names
import CallImpact.Proofs.Text.Cut

/-!
# Names of functions

The canonical name of a function is its full name without decoration (`canonicalName_fullName`), as
long as the path of its package cannot be taken for decoration (`IsUndecorated`) and the type of its
receiver is a word (`IsWord`).
-/

namespace CallImpact

/-- Whether a text has only characters that can stand in a name. -/
def IsWord (s : String) : Prop :=
  s.toList.all Go.Token.continuesWord

instance (s : String) : Decidable (IsWord s) :=
  inferInstanceAs (Decidable (_ = true))

/-- Whether the path of a package, before the point that follows it in a name, has nothing in it
that marks a receiver. -/
structure IsUndecorated (package : String) : Prop where
  closing : ¬ Text.contains (package ++ ".") ")."
  opening : ¬ Text.startsWith package "("
  pointer : ¬ Text.startsWith package "*"

instance (package : String) : Decidable (IsUndecorated package) :=
  decidable_of_iff (¬ Text.contains (package ++ ".") ")." ∧ ¬ Text.startsWith package "(" ∧
    ¬ Text.startsWith package "*")
    ⟨fun ⟨h1, h2, h3⟩ => ⟨h1, h2, h3⟩, fun ⟨h1, h2, h3⟩ => ⟨h1, h2, h3⟩⟩

/-- The name of a function without decoration. -/
def plainName (package : String) (receiver : Option String) (name : String) : String :=
  match receiver with
  | some type => package ++ "." ++ type ++ "." ++ name
  | none => package ++ "." ++ name

/-! ## Decoration -/

/-- A word has no closing parenthesis. -/
theorem not_mem_of_isWord {s : String} (h : IsWord s) : ')' ∉ s.toList := fun hm =>
  absurd (List.all_eq_true.mp h ')' hm) (by decide)

/-- After a package, a point and a word, a closing mark is found where it was put. -/
theorem cutList?_closing {package type : List Char} (hp : ¬ [')', '.'] <:+: package ++ ['.'])
    (ht : ')' ∉ type) (name : List Char) :
    Text.cutList? [')', '.'] ((package ++ ['.'] ++ type) ++ ([')', '.'] ++ name)) =
      some (package ++ ['.'] ++ type, name) := by
  refine Text.cutList?_append (by simp) _ _ fun before after hsplit hne => ?_
  cases hlead : Text.afterLead? [')', '.'] (after ++ ([')', '.'] ++ name)) with
  | none => rfl
  | some rest =>
    have heq := Text.afterLead?_eq_some_iff.mp hlead
    -- the mark would start inside the package, the point or the word
    rcases after with _ | ⟨c, _ | ⟨d, after⟩⟩
    · exact absurd rfl hne
    · simp at heq
    · simp only [List.cons_append, List.nil_append, List.cons.injEq] at heq
      obtain ⟨rfl, rfl, -⟩ := heq
      rcases List.append_eq_append_iff.mp hsplit with ⟨inside, hin, hrest⟩ | ⟨inside, -, htype⟩
      · rcases inside with _ | ⟨x, _ | ⟨y, inside⟩⟩
        · exact absurd (show ')' ∈ type by rw [← List.nil_append type, ← hrest]; simp) ht
        · simp only [List.cons_append, List.nil_append, List.cons.injEq] at hrest
          obtain ⟨rfl, -⟩ := hrest
          have hlast := congrArg List.getLast? hin
          simp at hlast
        · simp only [List.cons_append, List.cons.injEq] at hrest
          obtain ⟨rfl, rfl, -⟩ := hrest
          exact absurd ⟨before, inside, by simp [hin]⟩ hp
      · exact absurd (show ')' ∈ type by rw [htype]; simp) ht

/-- A mark of one character that a package does not start with is not at the start of its names. -/
theorem after?_eq_none {package lead : String} {c : Char} (hl : lead.toList = [c]) (hc : c ≠ '.')
    (h : ¬ Text.startsWith package lead) (rest : String) :
    Text.after? lead (package ++ "." ++ rest) = none := by
  have hnone : Text.afterLead? [c] package.toList = none := by
    simpa [Text.startsWith, Text.after?, hl] using h
  rw [Text.after?, hl, Option.map_eq_none_iff]
  have hcs : (package ++ "." ++ rest).toList = package.toList ++ '.' :: rest.toList := by simp
  rw [hcs]
  cases hp : package.toList with
  | nil => simp [Text.afterLead?, hc]
  | cons d ds =>
    rw [hp] at hnone
    by_cases hd : c = d
    · simp [Text.afterLead?, hd] at hnone
    · simp [Text.afterLead?, hd]

/-- After a package, a point and a word, a receiver ends where it was closed. -/
theorem cut?_closing {package type : String} (hp : IsUndecorated package) (ht : IsWord type)
    (name : String) :
    Text.cut? ")." (package ++ "." ++ type ++ ")." ++ name) =
      some (package ++ "." ++ type, name) := by
  have hcs : (package ++ "." ++ type ++ ")." ++ name).toList =
      (package.toList ++ ['.'] ++ type.toList) ++ ([')', '.'] ++ name.toList) := by simp
  have hnot : ¬ [')', '.'] <:+: package.toList ++ ['.'] := by
    have h := hp.closing
    rw [Text.contains_iff] at h
    simpa using h
  rw [Text.cut?, hcs]
  have hcut := cutList?_closing hnot (not_mem_of_isWord ht) name.toList
  rw [show ").".toList = [')', '.'] from rfl, hcut]
  simp [← String.toList_inj]

/-- The canonical name of a function is its name without decoration. -/
theorem canonicalName_fullName {package : String} (hp : IsUndecorated package)
    {receiver : Option (String × Bool)} (hr : ∀ r ∈ receiver, IsWord r.1) (name : String) :
    canonicalName (fullName package receiver name) =
      plainName package (receiver.map (·.1)) name := by
  unfold canonicalName fullName
  cases receiver with
  | none =>
    dsimp only
    rw [after?_eq_none rfl (by decide) hp.opening]
    rfl
  | some r =>
    obtain ⟨type, pointer⟩ := r
    have ht : IsWord type := hr (type, pointer) rfl
    have hcut := cut?_closing hp ht name
    cases pointer with
    | true =>
      have hfull : "(*" ++ package ++ "." ++ type ++ ")." ++ name =
          "(" ++ ("*" ++ (package ++ "." ++ type ++ ")." ++ name)) := by
        simp [← String.toList_inj]
      dsimp only
      rw [hfull, Text.after?_append]
      dsimp only
      rw [Text.after?_append, Option.getD_some, hcut]
      rfl
    | false =>
      have hfull : "(" ++ package ++ "." ++ type ++ ")." ++ name =
          "(" ++ (package ++ "." ++ (type ++ ")." ++ name)) := by
        simp [← String.toList_inj]
      dsimp only
      rw [hfull, Text.after?_append]
      dsimp only
      rw [after?_eq_none rfl (by decide) hp.pointer, Option.getD_none]
      rw [show package ++ "." ++ (type ++ ")." ++ name) = package ++ "." ++ type ++ ")." ++ name by
        simp [← String.toList_inj], hcut]
      rfl

end CallImpact
