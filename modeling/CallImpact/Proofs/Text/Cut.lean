import CallImpact.Text.Cut
import Mathlib.Data.List.Basic
import Mathlib.Data.List.DropRight
import Mathlib.Data.List.Infix

/-!
# Cutting and joining texts

What cutting finds when a text was put together: the lead of a text (`afterLead?_eq_some_iff`), the
first occurrence of a separator (`cutList?_append`), the piece after the last one
(`lastPiece_append`), and all pieces (`pieces_append_slash`).
-/

namespace CallImpact.Text

/-! ## Leads and separators -/

/-- What follows the lead of a text is the rest of it. -/
theorem afterLead?_eq_some_iff {lead cs rest : List Char} :
    afterLead? lead cs = some rest ↔ cs = lead ++ rest := by
  induction lead generalizing cs with
  | nil => simp [afterLead?]
  | cons a lead ih =>
    cases cs with
    | nil => simp [afterLead?]
    | cons c cs =>
      by_cases h : a = c
      · simp [afterLead?, h, ih]
      · simp [afterLead?, h, Ne.symm h]

/-- What follows a lead is what was put after it. -/
theorem after?_append (lead rest : String) : after? lead (lead ++ rest) = some rest := by
  have h : afterLead? lead.toList (lead ++ rest).toList = some rest.toList :=
    afterLead?_eq_some_iff.mpr (by simp)
  rw [after?, h]
  simp

/-- What precedes a tail is what was put before it. -/
theorem before?_append (rest tail : String) : before? tail (rest ++ tail) = some rest := by
  have h :
      afterLead? tail.toList.reverse (rest ++ tail).toList.reverse = some rest.toList.reverse :=
    afterLead?_eq_some_iff.mpr (by simp)
  rw [before?, h]
  simp

/-- A text has no lead that parts ways with how it starts. -/
theorem after?_eq_none_of_apart {lead start : String} (h : ¬ lead.toList <+: start.toList)
    (h' : ¬ start.toList <+: lead.toList) (rest : String) : after? lead (start ++ rest) = none := by
  rw [after?, Option.map_eq_none_iff, Option.eq_none_iff_forall_ne_some]
  intro tail hlead
  rw [afterLead?_eq_some_iff, String.toList_append] at hlead
  exact (List.prefix_or_prefix_of_prefix ⟨tail, hlead.symm⟩ (List.prefix_append _ _)).elim h h'

/-- A text starts with a lead exactly when the lead is a prefix of it. -/
theorem startsWith_iff {s lead : String} : startsWith s lead ↔ lead.toList <+: s.toList := by
  rw [startsWith, after?, Option.isSome_map, Option.isSome_iff_exists]
  refine exists_congr fun rest => ?_
  rw [afterLead?_eq_some_iff, eq_comm]

/-- Whether a text has a lead is told by how it starts, unless the lead goes on where that ends. -/
theorem startsWith_append {lead start : String} (h : ¬ start.toList <+: lead.toList)
    (rest : String) : startsWith (start ++ rest) lead = startsWith start lead := by
  rw [Bool.eq_iff_iff, startsWith_iff, startsWith_iff, String.toList_append]
  refine ⟨fun hlead => ?_, fun hlead => hlead.trans (List.prefix_append _ _)⟩
  exact (List.prefix_or_prefix_of_prefix hlead (List.prefix_append _ _)).resolve_right h

/-- Of texts of one length each begins with itself alone. -/
theorem startsWith_iff_eq {s lead : String} (h : s.length = lead.length) :
    startsWith s lead ↔ s = lead := by
  rw [startsWith_iff]
  refine ⟨fun hlead => ?_, fun heq => heq ▸ List.prefix_refl _⟩
  have hlength : lead.toList.length = s.toList.length := by
    rw [String.length_toList, String.length_toList, h]
  exact (String.toList_inj.mp (hlead.eq_of_length hlength)).symm

/-- A text ends with a tail exactly when the tail is a suffix of it. -/
theorem endsWith_iff {s tail : String} : endsWith s tail ↔ tail.toList <:+ s.toList := by
  rw [endsWith, before?, Option.isSome_map, Option.isSome_iff_exists, ← List.reverse_prefix]
  refine exists_congr fun rest => ?_
  rw [afterLead?_eq_some_iff, eq_comm]

/-- A text starts with one of two leads that part ways. -/
theorem startsWith_eq_false_of_apart {s a b : String} (h : startsWith s a)
    (hab : ¬ a.toList <+: b.toList) (hba : ¬ b.toList <+: a.toList) : startsWith s b = false := by
  rw [← Bool.not_eq_true]
  intro hb
  rw [startsWith_iff] at h hb
  exact (List.prefix_or_prefix_of_prefix h hb).elim hab hba

/-- A separator is found where it occurs first. -/
theorem cutList?_append {sep : List Char} (hsep : sep ≠ []) (a b : List Char)
    (h : ∀ before after, before ++ after = a → after ≠ [] →
      afterLead? sep (after ++ (sep ++ b)) = none) :
    cutList? sep (a ++ (sep ++ b)) = some (a, b) := by
  induction a with
  | nil =>
    have hlead : afterLead? sep (sep ++ b) = some b := afterLead?_eq_some_iff.mpr rfl
    cases hcs : sep ++ b with
    | nil => exact absurd (List.append_eq_nil_iff.mp hcs).1 hsep
    | cons c cs =>
      rw [hcs] at hlead
      simp [cutList?, hlead]
  | cons c a ih =>
    have hc := h [] (c :: a) rfl (by simp)
    have ha := ih fun before after he hne => h (c :: before) after (by simp [he]) hne
    rw [List.cons_append] at hc ⊢
    simp [cutList?, hc, ha]

/-- Cutting loses nothing but the separator. -/
theorem eq_of_cutList? {sep cs a b : List Char} (h : cutList? sep cs = some (a, b)) :
    cs = a ++ sep ++ b := by
  induction cs generalizing a with
  | nil =>
    obtain ⟨rest, hlead, heq⟩ := Option.map_eq_some_iff.mp h
    cases heq
    exact afterLead?_eq_some_iff.mp hlead
  | cons c cs ih =>
    rw [cutList?] at h
    cases hlead : afterLead? sep (c :: cs) with
    | some rest =>
      rw [hlead] at h
      cases h
      exact afterLead?_eq_some_iff.mp hlead
    | none =>
      rw [hlead] at h
      obtain ⟨⟨before, after⟩, hcut, heq⟩ := Option.map_eq_some_iff.mp h
      cases heq
      rw [ih hcut]
      rfl

/-- The two sides of a cut, with the separator between them, are the text. -/
theorem eq_of_cut? {sep s a b : String} (h : cut? sep s = some (a, b)) : s = a ++ sep ++ b := by
  obtain ⟨⟨before, after⟩, hcut, heq⟩ := Option.map_eq_some_iff.mp h
  cases heq
  apply String.toList_injective
  simpa using eq_of_cutList? hcut

/-- A separator is found where it occurs. -/
theorem isSome_cutList?_iff {sep cs : List Char} : (cutList? sep cs).isSome ↔ sep <:+: cs := by
  induction cs with
  | nil =>
    rw [List.infix_nil]
    cases sep with
    | nil => simp [cutList?, afterLead?]
    | cons c sep => simp [cutList?, afterLead?]
  | cons c cs ih =>
    rw [List.infix_cons_iff, cutList?]
    cases h : afterLead? sep (c :: cs) with
    | some rest =>
      rw [afterLead?_eq_some_iff] at h
      simp [h]
    | none =>
      have hnot : ¬ sep <+: c :: cs := fun ⟨rest, hrest⟩ => by
        rw [afterLead?_eq_some_iff.mpr hrest.symm] at h
        cases h
      simp [hnot, ih]

/-- A text is cut where a separator occurs. -/
theorem cut?_eq_none_iff {sep s : String} : cut? sep s = none ↔ ¬ sep.toList <:+: s.toList := by
  rw [cut?, Option.map_eq_none_iff, ← Option.not_isSome_iff_eq_none, isSome_cutList?_iff]

/-- A text contains a part exactly when the part is an infix of it. -/
theorem contains_iff {s part : String} : contains s part ↔ part.toList <:+: s.toList :=
  isSome_cutList?_iff

/-- A text contains a part of one letter exactly when it has the letter. -/
theorem contains_iff_mem {s part : String} {c : Char} (hpart : part.toList = [c]) :
    contains s part ↔ c ∈ s.toList := by
  rw [contains_iff, hpart, List.singleton_infix_iff]

/-- A text is not shortened when its last character stays. -/
theorem dropTailWhile_eq_self {p : Char → Bool} {cs : List Char}
    (h : ∀ c ∈ cs.getLast?, p c = false) :
    dropTailWhile p cs = cs := by
  rcases List.eq_nil_or_concat cs with rfl | ⟨front, c, rfl⟩
  · rfl
  · have hc : p c = false := h c (by simp)
    simp [dropTailWhile, hc]

/-- A tail that is dropped whole does not matter. -/
theorem dropTailWhile_append {p : Char → Bool} (cs : List Char) {tail : List Char}
    (h : ∀ c ∈ tail, p c) : dropTailWhile p (cs ++ tail) = dropTailWhile p cs := by
  have htail : ∀ c ∈ tail.reverse, p c := fun c hc => h c (List.mem_reverse.mp hc)
  rw [dropTailWhile, dropTailWhile, List.reverse_append, List.dropWhile_append_of_pos htail]

/-- What is left without a tail is a prefix. -/
theorem isPrefix_dropTailWhile (p : Char → Bool) (cs : List Char) : dropTailWhile p cs <+: cs := by
  have h := List.reverse_prefix.mpr
    (List.dropWhile_suffix p : cs.reverse.dropWhile p <:+ cs.reverse)
  rwa [List.reverse_reverse] at h

/-- What is left without both ends is an infix. -/
theorem isInfix_trimBoth (p : Char → Bool) (cs : List Char) : trimBoth p cs <:+: cs :=
  (isPrefix_dropTailWhile p _).isInfix.trans (List.dropWhile_suffix p).isInfix

/-- What is trimmed neither starts nor ends with what is trimmed away. -/
theorem trimBoth_trimBoth (p : Char → Bool) (cs : List Char) :
    trimBoth p (trimBoth p cs) = trimBoth p cs := by
  have hstart : (trimBoth p cs).dropWhile p = trimBoth p cs := by
    cases h : trimBoth p cs with
    | nil => rfl
    | cons c rest =>
      obtain ⟨more, hmore⟩ := isPrefix_dropTailWhile p (cs.dropWhile p)
      have hhead := List.head?_dropWhile_not p cs
      rw [← hmore, ← trimBoth, h] at hhead
      exact List.dropWhile_cons_of_neg (by simpa using hhead)
  have hend : dropTailWhile p (trimBoth p cs) = trimBoth p cs := by
    rw [trimBoth, dropTailWhile, dropTailWhile, List.reverse_reverse, List.dropWhile_idempotent]
  rw [trimBoth, hstart, hend]

@[simp] theorem trim_trim (s : String) : trim (trim s) = trim s := by
  rw [trim, trim, String.toList_ofList, trimBoth_trimBoth]

/-- A text without blanks has none at its ends. -/
theorem trim_of_not_blank {s : String} (h : ∀ c ∈ s.toList, isBlank c = false) : trim s = s := by
  have hstart : s.toList.dropWhile isBlank = s.toList := by
    rw [List.dropWhile_eq_self_iff]
    intro hpos
    simp [h _ (List.getElem_mem hpos)]
  have hend : dropTailWhile isBlank s.toList = s.toList :=
    dropTailWhile_eq_self fun c hc => h c (List.mem_of_getLast? hc)
  rw [trim, trimBoth, hstart, hend, String.ofList_toList]

/-- Of a text that goes on with a character and ends with one that are not blank, blanks are dropped
from the start only. -/
theorem trim_append {s t : String} {c : Char} {rest : List Char} (ht : t.toList = c :: rest)
    (hc : isBlank c = false) (hlast : ∀ d ∈ t.toList.getLast?, isBlank d = false) :
    trim (s ++ t) = trimStart s ++ t := by
  have hstart :
      (s.toList ++ t.toList).dropWhile isBlank = s.toList.dropWhile isBlank ++ t.toList := by
    have hkept : t.toList.dropWhile isBlank = t.toList := by
      rw [ht]
      exact List.dropWhile_cons_of_neg (by simp [hc])
    rw [List.dropWhile_append, hkept]
    split
    · rename_i hblank
      rw [List.isEmpty_iff.mp hblank, List.nil_append]
    · rfl
  have hend : dropTailWhile isBlank (s.toList.dropWhile isBlank ++ t.toList) =
      s.toList.dropWhile isBlank ++ t.toList := by
    refine dropTailWhile_eq_self ?_
    rw [List.getLast?_append_of_ne_nil _ (by rw [ht]; exact List.cons_ne_nil _ _)]
    exact hlast
  rw [trim, trimBoth, String.toList_append, hstart, hend, String.ofList_append,
    String.ofList_toList, trimStart]

/-- What occurs in a trimmed text occurs in the text. -/
theorem contains_of_contains_trim {s part : String} (h : contains (trim s) part) :
    contains s part := by
  rw [contains_iff] at h ⊢
  rw [trim, String.toList_ofList] at h
  exact h.trans (isInfix_trimBoth _ _)

/-- A separator character is found where it occurs first. -/
theorem cutList?_singleton {c : Char} {a : List Char} (h : c ∉ a) (b : List Char) :
    cutList? [c] (a ++ c :: b) = some (a, b) := by
  refine cutList?_append (by simp) a b fun before after he hne => ?_
  cases after with
  | nil => exact absurd rfl hne
  | cons d after =>
    have hd : c ≠ d := by
      rintro rfl
      exact h (by simp [← he])
    simp [afterLead?, hd]

/-- A separator is found where its second character occurs first. -/
theorem cutList?_of_not_mem {c d : Char} (hcd : c ≠ d) {a : List Char} (h : d ∉ a)
    (sep b : List Char) : cutList? (c :: d :: sep) (a ++ (c :: d :: sep ++ b)) = some (a, b) := by
  refine cutList?_append (by simp) a b fun before after he hne => ?_
  rcases after with _ | ⟨x, _ | ⟨y, after⟩⟩
  · exact absurd rfl hne
  · simp [afterLead?, hcd.symm]
  · have hy : d ≠ y := by
      rintro rfl
      exact h (by simp [← he])
    simp [afterLead?, hy]

/-- A text is cut at the first occurrence of a character. -/
theorem cut?_append {sep a : String} {c : Char} (hsep : sep.toList = [c]) (h : c ∉ a.toList)
    (b : String) : cut? sep (a ++ sep ++ b) = some (a, b) := by
  have hlist : (a ++ sep ++ b).toList = a.toList ++ c :: b.toList := by simp [hsep]
  rw [cut?, hlist, hsep, cutList?_singleton h]
  simp

/-- A text is cut at a separator when what stands before it has not its second character. -/
theorem cut?_append_of_not_mem {sep a : String} {c d : Char} {rest : List Char}
    (hsep : sep.toList = c :: d :: rest) (hcd : c ≠ d) (h : d ∉ a.toList) (b : String) :
    cut? sep (a ++ sep ++ b) = some (a, b) := by
  rw [cut?, String.toList_append, String.toList_append, List.append_assoc, hsep,
    cutList?_of_not_mem hcd h]
  simp

/-- A text is cut at the last occurrence of a character. -/
theorem cutLast?_append {sep last : String} {c : Char} (hsep : sep.toList = [c])
    (h : c ∉ last.toList) (base : String) :
    cutLast? c (base ++ sep ++ last) = some (base, last) := by
  have hcs : (base ++ sep ++ last).toList.reverse =
      last.toList.reverse ++ c :: base.toList.reverse := by simp [hsep]
  have hnot : c ∉ last.toList.reverse := by simpa using h
  have hcut := cutList?_singleton hnot base.toList.reverse
  rw [cutLast?, cutLastList?, hcs, List.reverse_singleton, hcut]
  simp

/-- The last piece of a text that ends in a piece. -/
theorem lastPiece_append (base : String) {last : String} (h : '/' ∉ last.toList) :
    lastPiece '/' (base ++ "/" ++ last) = last := by
  rw [lastPiece, cutLast?_append rfl h]

/-! ## Pieces -/

/-- There is always a piece. -/
theorem piecesList_ne_nil (sep : Char) (cs : List Char) : piecesList sep cs ≠ [] := by
  cases cs with
  | nil => simp [piecesList]
  | cons c cs =>
    unfold piecesList
    split
    · simp
    · split <;> simp

/-- A separator divides the pieces before it from those after it. -/
theorem piecesList_append (sep : Char) (a b : List Char) :
    piecesList sep (a ++ sep :: b) = piecesList sep a ++ piecesList sep b := by
  induction a with
  | nil => simp [piecesList]
  | cons c a ih =>
    by_cases hc : c = sep
    · simp [piecesList, hc, ih]
    · simp only [List.cons_append, piecesList, hc, if_false, ih]
      cases hp : piecesList sep a with
      | nil => exact absurd hp (piecesList_ne_nil sep a)
      | cons p ps => rfl

/-- A text without separator is a single piece. -/
theorem piecesList_of_not_mem {sep : Char} {cs : List Char} (h : sep ∉ cs) :
    piecesList sep cs = [cs] := by
  induction cs with
  | nil => rfl
  | cons c cs ih =>
    obtain ⟨hc, hcs⟩ := not_or.mp (mt List.mem_cons.mpr h)
    simp [piecesList, Ne.symm hc, ih hcs]

/-- What has no separator lengthens the last piece. -/
theorem piecesList_append_of_not_mem {sep : Char} (a : List Char) {b : List Char}
    (h : sep ∉ b) : ∃ before last, piecesList sep (a ++ b) = before ++ [last ++ b] := by
  induction a with
  | nil => exact ⟨[], [], by simp [piecesList_of_not_mem h]⟩
  | cons c a ih =>
    obtain ⟨before, last, ih⟩ := ih
    by_cases hc : c = sep
    · exact ⟨[] :: before, last, by simp [piecesList, hc, ih]⟩
    · cases before with
      | nil => exact ⟨[], c :: last, by simp [piecesList, hc, ih]⟩
      | cons p before => exact ⟨(c :: p) :: before, last, by simp [piecesList, hc, ih]⟩

/-- A slash divides the pieces before it from those after it. -/
theorem pieces_append_slash (a b : String) :
    pieces '/' (a ++ "/" ++ b) = pieces '/' a ++ pieces '/' b := by
  have : (a ++ "/" ++ b).toList = a.toList ++ '/' :: b.toList := by simp
  rw [pieces, this, piecesList_append, List.map_append]
  rfl

/-- A text without slash is a single piece. -/
theorem pieces_of_not_mem {s : String} (h : '/' ∉ s.toList) : pieces '/' s = [s] := by
  simp [pieces, piecesList_of_not_mem h]

end CallImpact.Text
