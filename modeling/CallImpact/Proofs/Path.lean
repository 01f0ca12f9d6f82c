import CallImpact.FileTree
import CallImpact.Proofs.Text.Cut

/-!
# Written paths

A name is what a file system accepts as the name of an entry (`IsName`). Splitting a text at slashes
undoes joining with slashes (`pieces_text`), so a path whose components are names can be written and
read back (`pathOf_text`), and written names extend a written path component by component
(`pathOf_append`). Whatever a text is, with a longer ending it is the path of something that ends in
the same letter (`lastLetter?_pathOf_append`).
-/

namespace CallImpact

open Text

/-! ## Names -/

/-- Whether a file system accepts a text as the name of an entry. -/
def IsName (s : String) : Prop :=
  s ≠ "" ∧ s ≠ "." ∧ s ≠ ".." ∧ '/' ∉ s.toList

instance (s : String) : Decidable (IsName s) :=
  inferInstanceAs (Decidable (_ ∧ _))

/-- A text with a letter or digit at its start and no slash is a name. -/
theorem IsName.of_head {c : Char} {cs : List Char} (hc : c ≠ '.') (hs : '/' ∉ c :: cs) :
    IsName (String.ofList (c :: cs)) := by
  refine ⟨fun h => ?_, fun h => ?_, fun h => ?_, by simpa using hs⟩ <;>
    simp [← String.toList_inj, hc] at h

/-- Splitting the written form of names gives them back. -/
theorem pieces_text {p : Path} (hp : p ≠ []) (h : ∀ c ∈ p, IsName c) : pieces '/' p.text = p := by
  induction p with
  | nil => exact absurd rfl hp
  | cons c rest ih =>
    have hc : pieces '/' c = [c] := pieces_of_not_mem (h c List.mem_cons_self).2.2.2
    cases rest with
    | nil => rw [Path.text, String.intercalate_singleton, hc]
    | cons d rest =>
      have := ih (by simp) fun x hx => h x (List.mem_cons_of_mem c hx)
      rw [Path.text, String.intercalate_cons_cons, pieces_append_slash, hc]
      rw [Path.text] at this
      rw [this, List.singleton_append]

/-- One more component of a written path, the components so far in reverse. -/
def descend (above : List String) (c : String) : List String :=
  if c = "" || c = "." then above else if c = ".." then above.tail else c :: above

/-- The path of a text descends through its pieces one by one. -/
theorem pathOf_eq (s : String) : pathOf s = ((pieces '/' s).foldl descend []).reverse := rfl

/-- Names lead down one by one. -/
theorem foldl_descend {names : List String} (h : ∀ c ∈ names, IsName c) (above : List String) :
    names.foldl descend above = names.reverse ++ above := by
  induction names generalizing above with
  | nil => rfl
  | cons c names ih =>
    obtain ⟨h1, h2, h3, -⟩ := h c List.mem_cons_self
    have hc : descend above c = c :: above := by simp [descend, h1, h2, h3]
    rw [List.foldl_cons, hc, ih fun x hx => h x (List.mem_cons_of_mem c hx)]
    simp

/-- Written names extend a written path. -/
theorem pathOf_append (base : String) {p : Path} (hp : p ≠ []) (h : ∀ c ∈ p, IsName c) :
    pathOf (base ++ "/" ++ p.text) = pathOf base ++ p := by
  rw [pathOf_eq, pieces_append_slash, pieces_text hp h, List.foldl_append, foldl_descend h,
    List.reverse_append, List.reverse_reverse, pathOf_eq]

/-- A path of names is read back from its written form. -/
theorem pathOf_text {p : Path} (hp : p ≠ []) (h : ∀ c ∈ p, IsName c) : pathOf p.text = p := by
  rw [pathOf_eq, pieces_text hp h, foldl_descend h]
  simp

/-- A written path has no characters but slashes and those of its components. -/
theorem not_mem_text {x : Char} (hx : x ≠ '/') {p : Path} (h : ∀ c ∈ p, x ∉ c.toList) :
    x ∉ p.text.toList := by
  induction p with
  | nil => simp [Path.text]
  | cons c rest ih =>
    have hc := h c List.mem_cons_self
    have hrest := ih fun d hd => h d (List.mem_cons_of_mem c hd)
    cases rest with
    | nil => rwa [Path.text, String.intercalate_singleton]
    | cons d rest =>
      rw [Path.text, String.intercalate_cons_cons, String.toList_append, String.toList_append]
      rw [Path.text] at hrest
      intro hm
      rcases List.mem_append.mp hm with hm | hm
      · rcases List.mem_append.mp hm with hm | hm
        · exact hc hm
        · exact hx (List.mem_singleton.mp hm)
      · exact hrest hm

/-! ## How paths end -/

/-- The letter that a path ends in. -/
def Path.lastLetter? (p : Path) : Option Char :=
  p.getLast?.bind fun name => name.toList.getLast?

/-- A path ends in the last letter of its last name. -/
theorem Path.lastLetter?_concat (p : Path) {name : String} :
    lastLetter? (p ++ [name]) = name.toList.getLast? := by
  rw [lastLetter?, List.getLast?_concat, Option.bind_some]

/-- A path that ends in a letter has a name. -/
theorem ne_nil_of_lastLetter? {p : Path} {c : Char} (h : p.lastLetter? = some c) : p ≠ [] := by
  rintro rfl
  cases h

/-- Paths that end in different letters are different. -/
theorem ne_of_lastLetter? {p q : Path} {c d : Char} (hp : p.lastLetter? = some c)
    (hq : q.lastLetter? = some d) (hcd : c ≠ d) : p ≠ q := by
  rintro rfl
  exact hcd (Option.some.inj (hp.symm.trans hq))

/-- What is longer than two dots leads down. -/
theorem descend_of_long {c : String} (h : 2 < c.length) (above : List String) :
    descend above c = c :: above := by
  have hne : ∀ short : String, short.length ≤ 2 → c ≠ short := by
    rintro short hshort rfl
    omega
  rw [descend, if_neg, if_neg (hne ".." (by decide))]
  rw [Bool.or_eq_true, decide_eq_true_eq, decide_eq_true_eq]
  exact not_or.mpr ⟨hne "" (by decide), hne "." (by decide)⟩

/-- A written path with an ending that is longer than two dots ends in the letter that this does. -/
theorem lastLetter?_pathOf_append (s : String) {ending : String} (hslash : '/' ∉ ending.toList)
    (hlong : 2 < ending.length) :
    (pathOf (s ++ ending)).lastLetter? = ending.toList.getLast? := by
  obtain ⟨before, last, hpieces⟩ := piecesList_append_of_not_mem s.toList hslash
  have hlast : 2 < (String.ofList (last ++ ending.toList)).length := by
    rw [String.length_ofList, List.length_append, String.length_toList]
    omega
  have hending : ending.toList ≠ [] := fun he => by
    rw [← String.length_toList, he] at hlong
    cases hlong
  rw [pathOf_eq, pieces, String.toList_append, hpieces, List.map_append, List.map_singleton,
    List.foldl_append, List.foldl_cons, List.foldl_nil, descend_of_long hlast, List.reverse_cons,
    Path.lastLetter?_concat, String.toList_ofList, List.getLast?_append_of_ne_nil _ hending]

end CallImpact
