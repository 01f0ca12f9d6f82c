import CallImpact.Text.Blank
import CallImpact.Text.Case
import CallImpact.Proofs.Text.Cut
import Mathlib.Data.List.Forall2

/-!
# Lower case, character by character

But for the capital sigma, the lower-case form of a text is that of its characters one by one
(`lowerFrom_eq`), so it is taken piece by piece (`lowercase_append`). A character that stands for
itself alone (`IsUncased`), such as a separator or a blank, is in the lower-case form of a text
where it is in the text (`of_flatMap_lowerChar`): what is cut there is cut alike in any letter
case.
-/

namespace CallImpact.Text

/-! ## Texts without a capital sigma -/

/-- Without a capital sigma the lower-case form of a text is that of its characters. -/
theorem lowerFrom_eq {cs : List Char} (h : '\u03A3' ∉ cs) (before : List Char) :
    lowerFrom before cs = cs.flatMap lowerChar := by
  induction cs generalizing before with
  | nil => rfl
  | cons c cs ih =>
    obtain ⟨hc, hcs⟩ := not_or.mp (mt List.mem_cons.mpr h)
    simp only [lowerFrom, if_neg (Ne.symm hc), ih hcs, List.flatMap_cons]

section
variable {s t : String}

/-- Without a capital sigma, a text is lowered letter by letter. -/
theorem toList_lowercase (h : '\u03A3' ∉ s.toList) :
    (lowercase s).toList = s.toList.flatMap lowerChar := by
  rw [lowercase, String.toList_ofList, lowerFrom_eq h]

/-- The lower-case form of a text is taken piece by piece. -/
theorem lowercase_append (hs : '\u03A3' ∉ s.toList) (ht : '\u03A3' ∉ t.toList) :
    lowercase (s ++ t) = lowercase s ++ lowercase t := by
  have hst : '\u03A3' ∉ (s ++ t).toList := by
    rw [String.toList_append, List.mem_append]
    exact not_or.mpr ⟨hs, ht⟩
  apply String.toList_injective
  rw [String.toList_append, toList_lowercase hst, toList_lowercase hs, toList_lowercase ht,
    String.toList_append, List.flatMap_append]

end

/-! ## Characters without case -/

/-- Whether a character is in the lower-case form of itself and of no other character. -/
def IsUncased (d : Char) : Prop :=
  ∀ c, d ∈ lowerChar c ↔ c = d

/-- The lower-case form of a character comes from the table, but for one character, and is the
character itself where the table has none. -/
theorem lowerChar_cases (c : Char) :
    (c = '\u0130' ∧ lowerChar c = ['i', '\u0307']) ∨
      (∃ x ∈ lowerShifts, x.1.contains c.toNat ∧ lowerChar c = [Char.ofNat (c.toNat + x.2).toNat]) ∨
      lowerChar c = [c] := by
  by_cases hc : c = '\u0130'
  · exact .inl ⟨hc, if_pos hc⟩
  · rw [lowerChar, if_neg hc]
    split
    · rename_i r shift hfind
      have hin : r.contains c.toNat := by simpa using List.find?_some hfind
      exact .inr (.inl ⟨(r, shift), List.mem_of_find?_eq_some hfind, hin, rfl⟩)
    · exact .inr (.inr rfl)

/-- Lowering a letter gives at least one. -/
theorem lowerChar_ne_nil (c : Char) : lowerChar c ≠ [] := by
  rcases lowerChar_cases c with ⟨-, h⟩ | ⟨x, -, -, h⟩ | h
  · simp [h]
  · simp [h]
  · simp [h]

/-- Whether a code point is neither in a range nor where the range is moved to. -/
def IsClear (n : Nat) (x : CodeRange × Int) : Prop :=
  (n < x.1.first ∨ x.1.last < n) ∧ ((n : Int) < x.1.first + x.2 ∨ x.1.last + x.2 < n)

instance (n : Nat) (x : CodeRange × Int) : Decidable (IsClear n x) :=
  inferInstanceAs (Decidable (_ ∧ _))

/-- What is clear of the table of lower-case forms has no case. Left out are the characters that the
table does not tell about: the dotted capital and its form, and what stands for no character. -/
theorem isUncased_of_isClear {d : Char} (hnot : d.toNat ∉ [0, 0x69, 0x130, 0x307])
    (hclear : ∀ x ∈ lowerShifts, IsClear d.toNat x) : IsUncased d := by
  simp only [List.mem_cons, List.not_mem_nil, or_false, not_or] at hnot
  obtain ⟨hzero, hi, hdotted, hdot⟩ := hnot
  have hself : d ∈ lowerChar d := by
    rcases lowerChar_cases d with ⟨rfl, -⟩ | ⟨x, hx, hin, -⟩ | h
    · exact absurd rfl hdotted
    · have hcontains := (hclear x hx).1
      simp only [CodeRange.contains, Bool.and_eq_true, decide_eq_true_eq] at hin
      omega
    · simp [h]
  refine fun c => ⟨fun hmem => ?_, fun heq => heq ▸ hself⟩
  rcases lowerChar_cases c with ⟨-, h⟩ | ⟨x, hx, hin, h⟩ | h
  · rw [h] at hmem
    rcases List.mem_cons.mp hmem with rfl | hmem
    · exact absurd rfl hi
    · exact absurd (congrArg Char.toNat (List.mem_singleton.mp hmem)) hdot
  · rw [h, List.mem_singleton] at hmem
    have htarget := (hclear x hx).2
    simp only [CodeRange.contains, Bool.and_eq_true, decide_eq_true_eq] at hin
    have hcode : d.toNat = (c.toNat + x.2).toNat ∨ d.toNat = 0 := by
      by_cases hvalid : (c.toNat + x.2).toNat.isValidChar
      · rw [hmem, Char.ofNat, dif_pos hvalid]
        exact .inl rfl
      · rw [hmem, Char.ofNat, dif_neg hvalid]
        exact .inr rfl
    omega
  · rw [h, List.mem_singleton] at hmem
    exact hmem.symm

/-- The separators of addresses and all blanks have no case. -/
theorem isUncased_of_mem {d : Char} (h : d.toNat ∈ [0x2F, 0x3A, 0x40] ++ blankCodes) :
    IsUncased d := by
  have htable : ∀ n ∈ [0x2F, 0x3A, 0x40] ++ blankCodes,
      n ∉ [0, 0x69, 0x130, 0x307] ∧ ∀ x ∈ lowerShifts, IsClear n x := by
    decide +kernel
  exact isUncased_of_isClear (htable _ h).1 (htable _ h).2

/-- The separators of addresses have no case. -/
theorem isUncased_of_isSeparator {d : Char} (h : d ∈ ['/', ':', '@']) : IsUncased d :=
  isUncased_of_mem (List.mem_append_left _ (List.mem_map_of_mem (f := Char.toNat) h))

/-- Blanks have no case. -/
theorem isUncased_of_isBlank {d : Char} (h : isBlank d) : IsUncased d :=
  isUncased_of_mem (List.mem_append_right _ (by simpa [isBlank] using h))

/-- A letter without case is its own lower case. -/
theorem IsUncased.lowerChar_eq {d : Char} (h : IsUncased d) : lowerChar d = [d] := by
  have hmem := (h d).mpr rfl
  rcases lowerChar_cases d with ⟨rfl, heq⟩ | ⟨x, -, -, heq⟩ | heq
  · rw [heq] at hmem
    exact absurd hmem (by decide)
  · rw [heq, List.mem_singleton] at hmem
    rw [heq, ← hmem]
  · exact heq

/-! ## Where characters without case are -/

section
variable {cs a b sep : List Char} {d : Char}

/-- A character without case is in the lower-case form of a text where it is in the text. -/
theorem of_flatMap_lowerChar (hd : IsUncased d) (h : cs.flatMap lowerChar = a ++ d :: b) :
    ∃ a' b', cs = a' ++ d :: b' ∧ a'.flatMap lowerChar = a ∧ b'.flatMap lowerChar = b := by
  induction cs generalizing a with
  | nil => simp at h
  | cons c cs ih =>
    rw [List.flatMap_cons, List.append_eq_append_iff] at h
    rcases h with ⟨more, rfl, hrest⟩ | ⟨more, hform, hrest⟩
    · obtain ⟨a', b', rfl, ha, hb⟩ := ih hrest
      exact ⟨c :: a', b', rfl, by rw [List.flatMap_cons, ha], hb⟩
    · cases more with
      | nil =>
        obtain ⟨a', b', rfl, ha, hb⟩ := ih (a := []) hrest.symm
        exact ⟨c :: a', b', rfl, by simp [ha, hform], hb⟩
      | cons x more =>
        obtain ⟨rfl, rfl⟩ := List.cons.inj hrest
        -- the character is in the form of another one, so it is that one
        have hc : c = d := (hd c).mp (by rw [hform]; simp)
        rw [hc, hd.lowerChar_eq, List.cons_eq_append_iff] at hform
        obtain ⟨rfl, hmore⟩ | ⟨a, -, hnil⟩ := hform
        · obtain rfl : more = [] := by simpa using hmore
          exact ⟨[], cs, by rw [hc]; rfl, rfl, rfl⟩
        · simp at hnil

@[simp] theorem flatMap_lowerChar_eq_nil_iff : cs.flatMap lowerChar = [] ↔ cs = [] := by
  cases cs with
  | nil => simp
  | cons c cs => simp [lowerChar_ne_nil]

/-- A text starts with characters without case when its lower-case form does. -/
theorem of_flatMap_lowerChar_append (hsep : ∀ d ∈ sep, IsUncased d)
    (h : cs.flatMap lowerChar = sep ++ b) : ∃ b', cs = sep ++ b' ∧ b'.flatMap lowerChar = b := by
  induction sep generalizing cs with
  | nil => exact ⟨cs, rfl, h⟩
  | cons d sep ih =>
    obtain ⟨hd, hsep⟩ := List.forall_mem_cons.mp hsep
    obtain ⟨a', cs', rfl, ha, hrest⟩ := of_flatMap_lowerChar hd (a := []) h
    obtain rfl := flatMap_lowerChar_eq_nil_iff.mp ha
    obtain ⟨b', rfl, hb⟩ := ih hsep hrest
    exact ⟨b', rfl, hb⟩

end

section
variable {s sep : String} {d : Char}

/-- A letter without case is in the lower case of a text exactly when it is in the text. -/
theorem mem_lowercase (hs : '\u03A3' ∉ s.toList) (hd : IsUncased d) :
    d ∈ (lowercase s).toList ↔ d ∈ s.toList := by
  rw [toList_lowercase hs, List.mem_flatMap]
  exact ⟨fun ⟨c, hc, hmem⟩ => (hd c).mp hmem ▸ hc, fun h => ⟨d, h, (hd d).mpr rfl⟩⟩

/-- A text of small characters is its own lower-case form. -/
theorem lowercase_eq_self (h : ∀ c ∈ s.toList, c ≠ '\u03A3' ∧ lowerChar c = [c]) :
    lowercase s = s := by
  apply String.toList_injective
  rw [toList_lowercase fun hmem => (h _ hmem).1 rfl]
  calc s.toList.flatMap lowerChar
      = s.toList.flatMap fun c => [c] := List.flatMap_congr fun c hc => (h c hc).2
    _ = s.toList := by simp

/-- The lower case of a text is empty exactly when the text is. -/
theorem lowercase_eq_empty_iff (hs : '\u03A3' ∉ s.toList) : lowercase s = "" ↔ s = "" := by
  rw [← String.toList_inj, toList_lowercase hs, ← String.toList_inj]
  exact flatMap_lowerChar_eq_nil_iff

/-- A text of characters without case starts a text when it starts the lower-case form. -/
theorem startsWith_of_lowercase (hs : '\u03A3' ∉ s.toList) (hsep : ∀ d ∈ sep.toList, IsUncased d)
    (h : startsWith (lowercase s) sep) : startsWith s sep := by
  rw [startsWith_iff, toList_lowercase hs] at h
  obtain ⟨b, hb⟩ := h
  obtain ⟨b', heq, -⟩ := of_flatMap_lowerChar_append hsep hb.symm
  exact startsWith_iff.mpr ⟨b', heq.symm⟩

/-- A character without case ends a text when it ends the lower-case form. -/
theorem getLast?_of_lowercase (hs : '\u03A3' ∉ s.toList) (hd : IsUncased d)
    (h : (lowercase s).toList.getLast? = some d) : s.toList.getLast? = some d := by
  rw [toList_lowercase hs] at h
  obtain ⟨a, ha⟩ := List.getLast?_eq_some_iff.mp h
  obtain ⟨a', b', hsplit, -, hb⟩ := of_flatMap_lowerChar hd ha
  rw [flatMap_lowerChar_eq_nil_iff.mp hb] at hsplit
  exact List.getLast?_eq_some_iff.mpr ⟨a', hsplit⟩

/-- A text of characters without case is part of a text when it is part of the lower-case form. -/
theorem contains_of_lowercase (hs : '\u03A3' ∉ s.toList) (hsep : ∀ d ∈ sep.toList, IsUncased d)
    (h : contains (lowercase s) sep) : contains s sep := by
  rw [contains_iff, toList_lowercase hs] at h
  obtain ⟨a, b, hab⟩ := h
  rw [contains_iff]
  cases hcs : sep.toList with
  | nil => exact List.nil_infix
  | cons d rest =>
    rw [hcs] at hab hsep
    obtain ⟨hd, hrest⟩ := List.forall_mem_cons.mp hsep
    obtain ⟨a', more, hsplit, -, hmore⟩ := of_flatMap_lowerChar hd (b := rest ++ b) (a := a)
      (by rw [← hab]; simp)
    obtain ⟨b', rfl, -⟩ := of_flatMap_lowerChar_append hrest hmore
    exact ⟨a', b', by rw [hsplit]; simp⟩

end

/-! ## Texts that differ in letter case -/

/-- Whether two texts are the same but for the case of letters. A capital sigma is no case of
another character here, since what its own lower-case form is depends on its place. -/
def SameLetters (s t : String) : Prop :=
  List.Forall₂ (fun a b => lowerChar a = lowerChar b ∧ (a = '\u03A3' ↔ b = '\u03A3'))
    s.toList t.toList

instance (s t : String) : Decidable (SameLetters s t) :=
  inferInstanceAs (Decidable (List.Forall₂ _ s.toList t.toList))

namespace SameLetters

variable {s t : String}

/-- In texts of the same letters, each letter of the second has one of the first. -/
theorem exists_of_mem (h : SameLetters s t) {b : Char} (hb : b ∈ t.toList) :
    ∃ a ∈ s.toList, lowerChar a = lowerChar b ∧ (a = '\u03A3' ↔ b = '\u03A3') := by
  unfold SameLetters at h
  generalize s.toList = as at h ⊢
  generalize t.toList = bs at h hb
  induction h with
  | nil => cases hb
  | cons hab _ ih =>
    rcases List.mem_cons.mp hb with rfl | hb
    · exact ⟨_, List.mem_cons_self, hab⟩
    · obtain ⟨a, ha, hrel⟩ := ih hb
      exact ⟨a, List.mem_cons_of_mem _ ha, hrel⟩

/-- Letter case makes no capital sigma. -/
theorem not_mem_sigma (h : SameLetters s t) (hs : '\u03A3' ∉ s.toList) : '\u03A3' ∉ t.toList := by
  intro ht
  obtain ⟨a, ha, -, hsigma⟩ := h.exists_of_mem ht
  exact hs (hsigma.mpr rfl ▸ ha)

/-- Letter case makes no blank. -/
theorem not_blank (h : SameLetters s t) (hs : ∀ a ∈ s.toList, isBlank a = false) :
    ∀ b ∈ t.toList, isBlank b = false := by
  intro b hb
  rw [← Bool.not_eq_true]
  intro hblank
  obtain ⟨a, ha, hform, -⟩ := h.exists_of_mem hb
  have hself : b ∈ lowerChar a := by rw [hform, (isUncased_of_isBlank hblank).lowerChar_eq]; simp
  have heq : a = b := (isUncased_of_isBlank hblank a).mp hself
  exact Bool.false_ne_true ((hs a ha).symm.trans (heq ▸ hblank))

/-- Texts that are the same but for letter case have one lower-case form. -/
theorem lowercase_congr (h : SameLetters s t) (hs : '\u03A3' ∉ s.toList) :
    lowercase t = lowercase s := by
  apply String.toList_injective
  rw [toList_lowercase hs, toList_lowercase (h.not_mem_sigma hs)]
  unfold SameLetters at h
  generalize s.toList = as at h ⊢
  generalize t.toList = bs at h ⊢
  induction h with
  | nil => rfl
  | cons hab _ ih => rw [List.flatMap_cons, List.flatMap_cons, hab.1, ih]

end SameLetters

end CallImpact.Text
