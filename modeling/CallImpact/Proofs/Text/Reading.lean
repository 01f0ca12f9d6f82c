import CallImpact.Proofs.Text.Cut
import CallImpact.Text.Number
import Mathlib.Data.List.Infix

/-!
# Reading what was written

Texts that were put together from lines, words and numbers are read back as these: lines that each
end in a newline (`lines_join`), words with a blank between them (`words_pair`), and numbers in
decimal digits (`readNat?_toString`).
-/

namespace CallImpact.Text

/-! ## Lines -/

/-- Only the end of a text can lose a carriage return. -/
theorem dropReturn_append {lead : List Char} (h : lead.getLast? ≠ some '\r') (rest : List Char) :
    dropReturn (lead ++ rest) = lead ++ dropReturn rest := by
  rcases List.eq_nil_or_concat rest with rfl | ⟨front, c, rfl⟩
  · rw [List.append_nil, dropReturn]
    split
    · rename_i tail hrev
      rw [List.getLast?_eq_head?_reverse, hrev] at h
      exact absurd rfl h
    · simp [dropReturn]
  · unfold dropReturn
    rw [List.concat_eq_append, ← List.append_assoc, List.reverse_append, List.reverse_append]
    by_cases hc : c = '\r'
    · subst hc
      simp
    · simp [hc]

/-- A line without a carriage return is left as it is. -/
theorem dropReturn_of_not_mem {cs : List Char} (h : '\r' ∉ cs) : dropReturn cs = cs := by
  have hlast : cs.getLast? ≠ some '\r' := fun hlast => h (List.mem_of_getLast? hlast)
  simpa [dropReturn] using dropReturn_append hlast []

/-- Lines that each end in a break are cut into these lines and an empty one. -/
theorem piecesList_ended {lines : List (List Char)} (h : ∀ l ∈ lines, '\n' ∉ l) :
    piecesList '\n' (lines.flatMap (· ++ ['\n'])) = lines ++ [[]] := by
  induction lines with
  | nil => rfl
  | cons l lines ih =>
    have hl : '\n' ∉ l := h l List.mem_cons_self
    have hlines := ih fun k hk => h k (List.mem_cons_of_mem l hk)
    rw [List.flatMap_cons, List.append_assoc, List.singleton_append, piecesList_append,
      piecesList_of_not_mem hl, hlines]
    rfl

/-- Lines that each end in a newline are the lines of the text, less a carriage return at the end.
-/
theorem lines_join {ls : List String} (h : ∀ l ∈ ls, '\n' ∉ l.toList) :
    lines (String.join (ls.map (· ++ "\n"))) =
      ls.map fun l => String.ofList (dropReturn l.toList) := by
  have htext : (String.join (ls.map (· ++ "\n"))).toList =
      (ls.map String.toList).flatMap (· ++ ['\n']) := by
    simp [String.toList_join, List.flatMap_map]
  have hpieces : ∀ l ∈ ls.map String.toList, '\n' ∉ l := by simpa using h
  unfold lines
  rw [htext, piecesList_ended hpieces]
  simp

/-! ## Words -/

/-- A text without blanks is one word. -/
theorem wordsList_of_not_blank {w : List Char} (hne : w ≠ []) (h : ∀ c ∈ w, isBlank c = false) :
    wordsList w = [w] := by
  induction w with
  | nil => exact absurd rfl hne
  | cons c w ih =>
    cases w with
    | nil => simp [wordsList, h c]
    | cons d w =>
      have hd : isBlank d = false := h d (by simp)
      have hrest := ih (by simp) fun x hx => h x (List.mem_cons_of_mem c hx)
      rw [wordsList, hrest]
      simp [h c List.mem_cons_self, hd]

/-- A blank ends a word. -/
theorem wordsList_append {w : List Char} (hne : w ≠ []) (h : ∀ c ∈ w, isBlank c = false) {b : Char}
    (hb : isBlank b) (rest : List Char) : wordsList (w ++ b :: rest) = w :: wordsList rest := by
  have hrest : wordsList (b :: rest) = wordsList rest := by
    unfold wordsList
    rw [if_pos hb]
    split
    · rfl
    · rfl
  induction w with
  | nil => exact absurd rfl hne
  | cons c w ih =>
    have hc : isBlank c = false := h c List.mem_cons_self
    cases w with
    | nil =>
      rw [List.singleton_append, wordsList, hrest]
      simp [hc, hb]
    | cons d w =>
      have hd : isBlank d = false := h d (by simp)
      have htail := ih (by simp) fun x hx => h x (List.mem_cons_of_mem c hx)
      rw [List.cons_append] at htail
      rw [List.cons_append, List.cons_append, wordsList, htail]
      simp [hc, hd]

/-- Two words with a blank between them. -/
theorem words_pair {a b : String} (ha : a ≠ "") (hb : b ≠ "")
    (ha' : ∀ c ∈ a.toList, isBlank c = false) (hb' : ∀ c ∈ b.toList, isBlank c = false) :
    words (a ++ " " ++ b) = [a, b] := by
  have htext : (a ++ " " ++ b).toList = a.toList ++ ' ' :: b.toList := by simp
  have hne : ∀ {s : String}, s ≠ "" → s.toList ≠ [] := fun hs hnil =>
    hs (String.toList_inj.mp hnil)
  rw [words, htext, wordsList_append (hne ha) ha' (by decide), wordsList_of_not_blank (hne hb) hb']
  simp

/-! ## Numbers -/

/-- A number is written in decimal digits. -/
theorem isDecimalDigit_of_mem_toString {n : Nat} {c : Char} (h : c ∈ (toString n).toList) :
    isDecimalDigit c := by
  rw [Nat.toString_eq_repr, Nat.toList_repr] at h
  have hdigit : c.isDigit := Nat.isDigit_of_mem_toDigits (by decide) (by decide) h
  rw [Char.isDigit, Bool.and_eq_true, decide_eq_true_eq, decide_eq_true_eq] at hdigit
  rw [isDecimalDigit, Bool.and_eq_true, decide_eq_true_eq, decide_eq_true_eq]
  exact hdigit

/-- A decimal digit is not blank. -/
theorem isBlank_of_isDecimalDigit {c : Char} (h : isDecimalDigit c) : isBlank c = false := by
  rw [isDecimalDigit, Bool.and_eq_true, decide_eq_true_eq, decide_eq_true_eq] at h
  have hlow : 48 ≤ c.toNat := h.1
  have hhigh : c.toNat ≤ 57 := h.2
  simp only [isBlank, blankCodes, List.contains_eq_mem, List.mem_cons, List.not_mem_nil, or_false,
    decide_eq_false_iff_not]
  omega

/-- The digits of a number are read as the number. -/
theorem readNat?_toString {n bound : Nat} (h : n ≤ bound) :
    readNat? bound (toString n) = some n := by
  have hvalue : digitsValue (toString n).toList = n := by
    rw [Nat.toString_eq_repr, Nat.toList_repr]
    exact Nat.ofDigitChars_toDigits (by decide) (by decide)
  have hne : (toString n).toList ≠ [] := by
    rw [Nat.toString_eq_repr, Nat.toList_repr]
    exact Nat.toDigits_ne_nil
  have hdigits : (toString n).toList.all isDecimalDigit :=
    List.all_eq_true.mpr fun c hc => isDecimalDigit_of_mem_toString hc
  have hsign : '+' ∉ (toString n).toList := fun hmem =>
    absurd (isDecimalDigit_of_mem_toString hmem) (by decide)
  unfold readNat?
  cases hcs : (toString n).toList with
  | nil => exact absurd hcs hne
  | cons c cs =>
    rw [hcs] at hvalue hdigits hsign
    have hc : c ≠ '+' := fun hc => hsign (hc ▸ List.mem_cons_self)
    simp [hc, hdigits, hvalue, h]

end CallImpact.Text
