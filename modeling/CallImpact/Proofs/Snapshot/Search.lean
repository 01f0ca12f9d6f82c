import CallImpact.Proofs.Text.Reading
import CallImpact.Snapshot.Search
import Mathlib

/-!
# What a path selects

A path selects the functions of a file by a pattern: a stored path is the given one, or ends in a
slash and a text that matches it (`endsLike_iff`). In a path without wildcards the match is up to
the case of ASCII letters (`matches_iff_of_plain`). So the functions that are found at a line of a
file, or for a query that names a file, may be those of a file with another name. They are in the
given file, for every snapshot, exactly when its path has neither a wildcard nor a letter
(`isFoundIn_spec`).
-/

namespace CallImpact.Snapshot

/-! ## Letters -/

/-- A character that is no letter is the same as itself alone. -/
theorem sameLetter_iff_of_not_isAlpha {c d : Char} (hc : ¬ c.isAlpha) : sameLetter c d ↔ d = c := by
  have hupper : ∀ {x : Char}, ¬ x.isAlpha → ¬ x.isUpper :=
    fun hx hu => hx (by simp [Char.isAlpha, hu])
  rw [sameLetter, beq_iff_eq]
  constructor
  · intro h
    have hd : ¬ d.isAlpha := by
      rwa [← Char.isAlpha_toLower_eq_isAlpha, ← h, Char.isAlpha_toLower_eq_isAlpha]
    rw [Char.toLower_eq_of_not_isUpper (hupper hc), Char.toLower_eq_of_not_isUpper (hupper hd)] at h
    exact h.symm
  · rintro rfl
    rfl

/-- A letter is the same as another one, which has the other case. -/
theorem exists_sameLetter_of_isAlpha {c : Char} (hc : c.isAlpha) : ∃ d, d ≠ c ∧ sameLetter c d := by
  by_cases hupper : c.isUpper
  · refine ⟨c.toLower, fun he => ?_, by simp [sameLetter]⟩
    have hlower := Char.isUpper_toLower_eq_false c
    rw [he, hupper] at hlower
    cases hlower
  · have hcase : c.isLower := by simpa [Char.isAlpha, hupper] using hc
    refine ⟨c.toUpper, fun he => ?_, by simp [sameLetter]⟩
    have hraised := Char.isLower_toUpper_eq_false c
    rw [he, hcase] at hraised
    cases hraised

/-! ## Patterns -/

/-- Whether a text matches a pattern. -/
inductive Matches : (pattern text : List Char) → Prop
  | nil : Matches [] []
  | any {pattern text after : List Char} (before : List Char) : text = before ++ after →
      Matches pattern after → Matches ('%' :: pattern) text
  | one {pattern text : List Char} (c : Char) :
    Matches pattern text → Matches ('_' :: pattern) (c :: text)
  | letter {pattern text : List Char} {p c : Char} : p ≠ '%' → p ≠ '_' → sameLetter p c →
      Matches pattern text → Matches (p :: pattern) (c :: text)

/-- Some end of a text satisfies a condition exactly when the text is cut before such an end. -/
theorem anyTail_iff {p : List Char → Bool} {cs : List Char} :
    anyTail p cs ↔ ∃ before after, cs = before ++ after ∧ p after := by
  induction cs with
  | nil =>
    constructor
    · exact fun h => ⟨[], [], rfl, h⟩
    · rintro ⟨before, after, heq, h⟩
      obtain ⟨rfl, rfl⟩ := List.append_eq_nil_iff.mp heq.symm
      exact h
  | cons c cs ih =>
    rw [anyTail, Bool.or_eq_true, ih]
    constructor
    · rintro (h | ⟨before, after, rfl, h⟩)
      · exact ⟨[], c :: cs, rfl, h⟩
      · exact ⟨c :: before, after, rfl, h⟩
    · rintro ⟨_ | ⟨d, before⟩, after, heq, h⟩
      · exact .inl (by rwa [heq])
      · obtain ⟨-, heq⟩ := List.cons.inj heq
        exact .inr ⟨before, after, heq, h⟩

/-- Comparing a text with a pattern decides whether it matches. -/
theorem likeList_iff {pattern text : List Char} : likeList pattern text ↔ Matches pattern text := by
  induction pattern generalizing text with
  | nil =>
    rw [likeList, List.isEmpty_iff]
    constructor
    · rintro rfl
      exact .nil
    · rintro ⟨⟩
      rfl
  | cons p pattern ih =>
    by_cases hany : p = '%'
    · subst hany
      rw [likeList, anyTail_iff]
      constructor
      · rintro ⟨before, after, heq, h⟩
        exact .any before heq (ih.mp h)
      · intro h
        cases h with
        | any before heq h => exact ⟨before, _, heq, ih.mpr h⟩
        | letter hne => exact absurd rfl hne
    by_cases hone : p = '_'
    · subst hone
      cases text with
      | nil => exact iff_of_false (by simp [likeList]) nofun
      | cons c text =>
        rw [likeList, ih]
        constructor
        · exact .one c
        · intro h
          cases h with
          | one _ h => exact h
          | letter _ hne => exact absurd rfl hne
    · cases text with
      | nil =>
        refine iff_of_false (by simp [likeList]) fun h => ?_
        cases h with
        | any => exact hany rfl
      | cons c text =>
        rw [likeList, Bool.and_eq_true, ih]
        · constructor
          · exact fun h => .letter hany hone h.1 h.2
          · intro h
            cases h with
            | any => exact absurd rfl hany
            | one => exact absurd rfl hone
            | letter _ _ hc h => exact ⟨hc, h⟩
        · exact hany
        · exact hone

/-- Patterns are matched piece by piece. -/
theorem Matches.append {a b s t : List Char} (ha : Matches a s) (hb : Matches b t) :
    Matches (a ++ b) (s ++ t) := by
  induction ha with
  | nil => exact hb
  | any before heq _ ih => exact .any before (by rw [heq, List.append_assoc]) ih
  | one c _ ih => exact .one c ih
  | letter hany hone hc _ ih => exact .letter hany hone hc ih

/-- Every text matches itself as a pattern. -/
theorem Matches.refl (cs : List Char) : Matches cs cs := by
  induction cs with
  | nil => exact .nil
  | cons c cs ih =>
    by_cases hany : c = '%'
    · subst hany
      exact .any ['%'] rfl ih
    by_cases hone : c = '_'
    · subst hone
      exact .one '_' ih
    · exact .letter hany hone (beq_self_eq_true _) ih

/-- A pattern without wildcards is matched by the texts that are equal to it up to case. -/
theorem matches_iff_of_plain {cs text : List Char} (hany : '%' ∉ cs) (hone : '_' ∉ cs) :
    Matches cs text ↔ text.map Char.toLower = cs.map Char.toLower := by
  induction cs generalizing text with
  | nil =>
    rw [List.map_nil, List.map_eq_nil_iff]
    constructor
    · rintro ⟨⟩
      rfl
    · rintro rfl
      exact .nil
  | cons c cs ih =>
    obtain ⟨hc, hany⟩ := not_or.mp (List.mem_cons.not.mp hany)
    obtain ⟨hc', hone⟩ := not_or.mp (List.mem_cons.not.mp hone)
    constructor
    · intro h
      cases h with
      | any => exact absurd rfl hc
      | one => exact absurd rfl hc'
      | letter _ _ hsame h =>
        rw [List.map_cons, List.map_cons, (ih hany hone).mp h, beq_iff_eq.mp hsame]
    · intro h
      cases text with
      | nil => cases h
      | cons d text =>
        obtain ⟨hd, h⟩ := List.cons.inj h
        exact .letter (Ne.symm hc) (Ne.symm hc') (beq_iff_eq.mpr hd.symm) ((ih hany hone).mpr h)

/-- A pattern without wildcards and letters is matched by itself alone. -/
theorem eq_of_matches {cs text : List Char} (hcs : ∀ c ∈ cs, c ≠ '%' ∧ c ≠ '_' ∧ ¬ c.isAlpha)
    (h : Matches cs text) : text = cs := by
  induction h with
  | nil => rfl
  | any => exact absurd rfl (hcs _ List.mem_cons_self).1
  | one => exact absurd rfl (hcs _ List.mem_cons_self).2.1
  | letter _ _ hsame _ ih =>
    obtain ⟨hc, hcs⟩ := List.forall_mem_cons.mp hcs
    rw [(sameLetter_iff_of_not_isAlpha hc.2.2).mp hsame, ih hcs]

/-! ## Paths -/

/-- Whether a stored path is the given one or ends in a slash and it. -/
def IsAt (path stored : String) : Prop :=
  stored = path ∨ ∃ base, stored = base ++ "/" ++ path

/-- A path selects the stored path that is equal to it, and those that end in a slash and a text
that matches it. -/
theorem endsLike_iff {path stored : String} : endsLike path stored ↔
    stored = path ∨
      ∃ base name, stored = base ++ "/" ++ name ∧ Matches path.toList name.toList := by
  have hpattern : ("%/" ++ path).toList = '%' :: '/' :: path.toList := by simp
  rw [endsLike, Bool.or_eq_true, beq_iff_eq, like, hpattern, likeList_iff]
  refine or_congr_right ⟨fun h => ?_, ?_⟩
  · generalize htext : stored.toList = text at h
    cases h with
    | any before heq h =>
      cases h with
      | @letter _ name _ c _ _ hslash h =>
        obtain rfl := (sameLetter_iff_of_not_isAlpha (by decide)).mp hslash
        refine ⟨String.ofList before, String.ofList name, ?_, by rwa [String.toList_ofList]⟩
        rw [← String.toList_inj, htext, heq]
        simp
    | letter hne => exact absurd rfl hne
  · rintro ⟨base, name, rfl, h⟩
    have hname : Matches ('/' :: path.toList) ('/' :: name.toList) :=
      .letter (by decide) (by decide) (by decide) h
    exact .any base.toList (by simp) hname

/-- A path with a wildcard or a letter also selects a stored path that does not end in it. -/
theorem exists_endsLike {path : String} {c : Char} (hmem : c ∈ path.toList)
    (hc : c = '%' ∨ c = '_' ∨ c.isAlpha) : ∃ stored, endsLike path stored ∧ ¬ IsAt path stored := by
  obtain ⟨front, rest, hpath⟩ := List.append_of_mem hmem
  -- what the character matches beside itself
  obtain ⟨instead, hmatch, hnot⟩ :
      ∃ instead, Matches (c :: rest) (instead ++ rest) ∧ c ∉ instead := by
    rcases hc with rfl | rfl | hc
    · exact ⟨[], .any [] rfl (.refl rest), List.not_mem_nil⟩
    · exact ⟨['x'], .one 'x' (.refl rest), by decide⟩
    · obtain ⟨d, hd, hsame⟩ := exists_sameLetter_of_isAlpha hc
      refine ⟨[d], .letter ?_ ?_ hsame (.refl rest), by simpa using hd.symm⟩
      · rintro rfl
        exact absurd hc (by decide)
      · rintro rfl
        exact absurd hc (by decide)
  have hslash : c ≠ '/' := by
    rintro rfl
    exact absurd hc (by decide)
  refine ⟨_, endsLike_iff.mpr (.inr ⟨"", String.ofList (front ++ (instead ++ rest)), rfl, ?_⟩), ?_⟩
  · rw [hpath, String.toList_ofList]
    exact (Matches.refl front).append hmatch
  · -- the stored path has the character less often than the given one
    have hfewer : ("" ++ "/" ++ String.ofList (front ++ (instead ++ rest))).toList.count c <
        path.toList.count c := by
      rw [hpath]
      simp [hslash.symm, List.count_eq_zero_of_not_mem hnot]
    rintro (heq | ⟨base, heq⟩)
    · rw [heq] at hfewer
      exact Nat.lt_irrefl _ hfewer
    · rw [heq, String.toList_append, List.count_append] at hfewer
      omega

/-! ## Functions that are found -/

/-- The way to read a query that gives its answer: the first that finds anything. -/
def answering? (s : Snapshot) (query : String) : Option Nat :=
  (s.answers (Text.trim query)).findIdx? fun found => !found.isEmpty

/-- Whether a function is found in a file: at a line of it, by a query for a line of it, or by a
query for the file, when these give the answer. -/
inductive IsFoundIn (s : Snapshot) (path : String) (n : GraphNode) : Prop
  | atLine (line : Nat) : s.functionAt? path line = some n → IsFoundIn s path n
  | byPlace {query : String} {line limit : Nat} : place? (Text.trim query) = some (path, line) →
      s.answering? query = some 0 → n ∈ s.search query limit → IsFoundIn s path n
  | byFile {query : String} {limit : Nat} : Text.trim query = path → s.answering? query = some 1 →
      n ∈ s.search query limit → IsFoundIn s path n

section
variable {s : Snapshot} {path query : String} {n : GraphNode} {i limit : Nat}

/-- What a search gives is among what the answering way to read its query finds. -/
theorem mem_answers_of_mem_search (hway : s.answering? query = some i)
    (hn : n ∈ s.search query limit) :
    ∃ found, (s.answers (Text.trim query))[i]? = some found ∧ n ∈ found := by
  unfold search at hn
  dsimp only at hn
  split at hn
  · exact absurd hn List.not_mem_nil
  · have hmem := List.mem_of_mem_take hn
    rw [List.find?_eq_bind_findIdx?_getElem?, ← answering?, hway, Option.bind_some] at hmem
    cases hfound : (s.answers (Text.trim query))[i]? with
    | none =>
      rw [hfound] at hmem
      exact absurd hmem List.not_mem_nil
    | some found =>
      rw [hfound] at hmem
      exact ⟨found, rfl, hmem⟩

/-- A function found to cover a line is a node whose file fits the path. -/
theorem mem_of_mem_covering {line : Nat} (h : n ∈ s.covering path line) :
    n ∈ s.nodes ∧ endsLike path n.file := by
  obtain ⟨hn, hfile⟩ := List.mem_filter.mp (List.mem_mergeSort.mp h)
  exact ⟨hn, (Bool.and_eq_true_iff.mp hfile).1⟩

/-- A function found in a file is a node whose file fits the path. -/
theorem mem_of_mem_inFile (h : n ∈ s.inFile path) : n ∈ s.nodes ∧ endsLike path n.file :=
  List.mem_filter.mp (List.mem_mergeSort.mp h)

/-- A function that is found in a file is one of the snapshot, and its stored path is selected. -/
theorem IsFoundIn.endsLike (h : IsFoundIn s path n) : n ∈ s.nodes ∧ endsLike path n.file := by
  cases h with
  | atLine line h => exact mem_of_mem_covering (List.mem_of_head? h)
  | byPlace hplace hway hn =>
    obtain ⟨found, hfound, hn⟩ := mem_answers_of_mem_search hway hn
    rw [answers, List.getElem?_cons_zero, hplace] at hfound
    obtain rfl := Option.some.inj hfound
    exact mem_of_mem_covering hn
  | byFile hquery hway hn =>
    obtain ⟨found, hfound, hn⟩ := mem_answers_of_mem_search hway hn
    rw [answers, List.getElem?_cons_succ, List.getElem?_cons_zero, hquery] at hfound
    obtain rfl := Option.some.inj hfound
    split at hn
    · exact mem_of_mem_inFile hn
    · exact absurd hn List.not_mem_nil

end

/-- A query for a line of a file, with blanks before the file left out. -/
theorem place?_of_line (path : String) {line : Nat} (hline : line ≤ Text.max32) :
    place? (Text.trim (path ++ ":" ++ toString line)) = some (Text.trimStart path, line) := by
  have hdigit := fun c (hc : c ∈ (toString line).toList) => Text.isDecimalDigit_of_mem_toString hc
  have hblank := fun c (hc : c ∈ (toString line).toList) =>
    Text.isBlank_of_isDecimalDigit (hdigit c hc)
  have hcolon : ':' ∉ (toString line).toList := fun hc => absurd (hdigit ':' hc) (by decide)
  have htrim : Text.trim (path ++ ":" ++ toString line) =
      Text.trimStart path ++ ":" ++ toString line := by
    have hlast : ∀ d ∈ (":" ++ toString line).toList.getLast?, Text.isBlank d = false := by
      intro d hd
      rw [String.toList_append] at hd
      rcases List.mem_append.mp (List.mem_of_getLast? hd) with hd | hd
      · obtain rfl := List.mem_singleton.mp hd
        decide
      · exact hblank d hd
    rw [String.append_assoc, Text.trim_append String.toList_append (by decide) hlast,
      String.append_assoc]
  rw [htrim, place?, Text.cutLast?_append rfl hcolon]
  simp only [Option.bind_eq_bind, Option.bind_some, Text.trim_of_not_blank hblank,
    Text.readNat?_toString hline]
  rfl

/-- A function in a file. -/
def nodeIn (file : String) : GraphNode :=
  { (default : GraphNode) with file, lineStart := 1, lineEnd := 1 }

/-- Every function whose stored path is selected is found, in a snapshot with no other. -/
theorem isFoundIn_of_endsLike {path stored : String} (h : endsLike path stored) :
    IsFoundIn { nodes := [nodeIn stored] } path (nodeIn stored) := by
  refine .atLine 1 ?_
  have hfilter : [nodeIn stored].filter (fun n => endsLike path n.file && covers 1 n) =
      [nodeIn stored] := by
    simp [nodeIn, h, covers]
  rw [functionAt?, covering, hfilter, List.mergeSort_singleton, List.head?_cons]

/-- The functions that are found in a file are those whose stored path is the file's, or ends in a
slash and a text that matches it as a pattern; without wildcards the text is equal up to the case
of ASCII letters. They are all in the file, in every snapshot, exactly when the path has neither a
wildcard nor a letter. A query for a line is read as one, with blanks before the file left out. -/
theorem isFoundIn_spec (path : String) :
    (∀ s n, IsFoundIn s path n → n ∈ s.nodes ∧ (n.file = path ∨
      ∃ base name, n.file = base ++ "/" ++ name ∧ Matches path.toList name.toList)) ∧
    ('%' ∉ path.toList → '_' ∉ path.toList → ∀ s n, IsFoundIn s path n → n.file = path ∨
      ∃ base name, n.file = base ++ "/" ++ name ∧
        name.toList.map Char.toLower = path.toList.map Char.toLower) ∧
    ((∀ s n, IsFoundIn s path n → IsAt path n.file) ↔
      ∀ c ∈ path.toList, c ≠ '%' ∧ c ≠ '_' ∧ ¬ c.isAlpha) ∧
    ∀ line, line ≤ Text.max32 →
      place? (Text.trim (path ++ ":" ++ toString line)) = some (Text.trimStart path, line) := by
  refine ⟨fun s n h => ⟨h.endsLike.1, endsLike_iff.mp h.endsLike.2⟩, fun hany hone s n h => ?_,
    ⟨fun h c hmem => ?_, fun h s n hfound => ?_⟩, fun line => place?_of_line path⟩
  · refine (endsLike_iff.mp h.endsLike.2).imp_right ?_
    rintro ⟨base, name, heq, hmatch⟩
    exact ⟨base, name, heq, (matches_iff_of_plain hany hone).mp hmatch⟩
  · by_contra hc
    have hc : c = '%' ∨ c = '_' ∨ c.isAlpha := by tauto
    obtain ⟨stored, hselected, hnot⟩ := exists_endsLike hmem hc
    exact hnot (h _ _ (isFoundIn_of_endsLike hselected))
  · rcases endsLike_iff.mp hfound.endsLike.2 with heq | ⟨base, name, heq, hmatch⟩
    · exact .inl heq
    · refine .inr ⟨base, ?_⟩
      rw [heq, String.toList_injective (eq_of_matches h hmatch)]

/-- A snapshot with two functions in files that have names like common ones. -/
def alikeSnapshot : Snapshot :=
  { nodes := [nodeIn "store/userXrepo.go", nodeIn "store/Main.go"] }

/-- The case of a stored file whose name differs in the case of a letter. -/
theorem isFoundIn_spec_alikeSnapshot :
    IsFoundIn alikeSnapshot "main.go" (nodeIn "store/Main.go") ∧
    nodeIn "store/Main.go" ∈ alikeSnapshot.nodes ∧ ((nodeIn "store/Main.go").file = "main.go" ∨
      ∃ base name, (nodeIn "store/Main.go").file = base ++ "/" ++ name ∧
        name.toList.map Char.toLower = "main.go".toList.map Char.toLower) := by
  have hfound : IsFoundIn alikeSnapshot "main.go" (nodeIn "store/Main.go") :=
    .atLine 1 (by decide +kernel)
  obtain ⟨hselected, hplain, -⟩ := isFoundIn_spec "main.go"
  exact ⟨hfound, (hselected _ _ hfound).1, hplain (by decide) (by decide) _ _ hfound⟩

/-- An underscore in a path stands for any character, and a letter for either case: at a line of a
file, by a query for a line of it and by a query for the file, functions of other files are found.
-/
theorem other_files_found :
    alikeSnapshot.functionAt? "user_repo.go" 1 = some (nodeIn "store/userXrepo.go") ∧
    alikeSnapshot.functionAt? "main.go" 1 = some (nodeIn "store/Main.go") ∧
    alikeSnapshot.search "main.go:1" 0 = [nodeIn "store/Main.go"] ∧
    alikeSnapshot.search "user_repo.go" 0 = [nodeIn "store/userXrepo.go"] ∧
    IsFoundIn alikeSnapshot "user_repo.go" (nodeIn "store/userXrepo.go") ∧
    ¬ IsAt "user_repo.go" "store/userXrepo.go" ∧ ¬ IsAt "main.go" "store/Main.go" := by
  have hnot : ∀ {path stored : String}, stored ≠ path → ¬ path.toList <:+ stored.toList →
      ¬ IsAt path stored := by
    rintro path stored hne hsuffix (heq | ⟨base, heq⟩)
    · exact hne heq
    · exact hsuffix ⟨(base ++ "/").toList, by rw [heq, ← String.toList_append]⟩
  exact ⟨by decide +kernel, by decide +kernel, by decide +kernel, by decide +kernel,
    .atLine 1 (by decide +kernel), hnot (by decide) (by decide), hnot (by decide) (by decide)⟩

end CallImpact.Snapshot
