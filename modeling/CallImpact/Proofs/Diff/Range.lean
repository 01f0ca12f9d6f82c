import CallImpact.Diff.Analysis
import CallImpact.Proofs.Session
import CallImpact.Proofs.Text.Cut

/-!
# Ranges as arguments

A range that is accepted has neither blanks nor control characters and is one reference or two with
an operator between them (`isRange_of_isMalformed`), so it cannot start with a dash. Since it is the
only argument of the command for differences that a user has a say in, no text becomes an option of
that command. References without two points in a row, and without one where an operator begins or
ends, are told apart again where the longer operator is looked for first (`references_between`), so
every range of them is accepted (`range_is_no_option`).
-/

namespace CallImpact.Diff

open Session

/-! ## Texts of ranges -/

/-- Whether a text has neither blanks nor control characters. -/
def IsGraphic (s : String) : Prop :=
  ∀ c ∈ s.toList, Text.isBlank c = false ∧ Text.isControl c = false

/-- Whether a text can be one side of a range: no operator is in it, and it is no option. -/
structure IsSide (s : String) : Prop where
  undotted : ¬ ['.', '.'] <:+: s.toList
  plain : s.toList.head? ≠ some '-'

/-- Whether a text is a range: one reference, or two sides, of which one may be empty, with an
operator between them. -/
inductive IsRange : String → Prop where
  | single {reference : String} : reference ≠ "" → IsSide reference → IsRange reference
  | between {older op newer : String} : op ∈ ["..", "..."] → IsSide older → IsSide newer →
      ¬ (older = "" ∧ newer = "") → IsRange (older ++ op ++ newer)

/-- Whether a text is left as it is next to an operator: it is empty or a reference that neither
starts nor ends with a point. -/
structure IsEnd (s : String) : Prop extends IsSide s where
  graphic : IsGraphic s
  start : s.toList.head? ≠ some '.'
  stop : s.toList.getLast? ≠ some '.'

/-- Whether a text is a reference, or up to two of them around an operator. -/
inductive IsPlainRange : String → Prop where
  | single {reference : String} : reference ≠ "" → IsEnd reference → IsPlainRange reference
  | between {older op newer : String} : op ∈ ["..", "..."] → IsEnd older → IsEnd newer →
      ¬ (older = "" ∧ newer = "") → IsPlainRange (older ++ op ++ newer)

/-! ## What is accepted is a range -/

section
variable {range : String}

/-- A text starts with a dash when its first character is one. -/
theorem startsWith_dash_iff {s : String} : Text.startsWith s "-" ↔ s.toList.head? = some '-' := by
  rw [Text.startsWith_iff]
  cases s.toList <;> simp [eq_comm]

/-- A side is what the check for malformed ranges lets pass. -/
theorem isSide_iff {s : String} :
    IsSide s ↔ (Text.startsWith s "-" || Text.contains s "..") = false := by
  rw [Bool.or_eq_false_iff, ← Bool.not_eq_true, ← Bool.not_eq_true, startsWith_dash_iff,
    Text.contains_iff]
  exact ⟨fun h => ⟨h.plain, h.undotted⟩, fun h => ⟨h.2, h.1⟩⟩

/-- A range is not malformed when its characters and its references are all right. -/
theorem isMalformed_eq_false_iff : isMalformed range = false ↔
    IsGraphic range ∧ (∀ r ∈ references range, IsSide r) ∧ ∃ r ∈ references range, r ≠ "" := by
  unfold isMalformed
  rw [Bool.or_eq_false_iff, Bool.or_eq_false_iff, and_assoc]
  refine and_congr ?_ (and_congr ?_ ?_)
  · simp [IsGraphic]
  · simp [isSide_iff]
  · simp

/-- The references of a range are the text before and after an operator, or the whole range, which
has no operator then. -/
theorem references_cases (range : String) :
    (∃ older op newer, op ∈ ["..", "..."] ∧ range = older ++ op ++ newer ∧
        references range = [older, newer]) ∨
      references range = [range] := by
  unfold references
  cases hlong : Text.cut? "..." range with
  | some sides =>
    exact .inl ⟨sides.1, "...", sides.2, by simp, Text.eq_of_cut? hlong, rfl⟩
  | none =>
    cases hshort : Text.cut? ".." range with
    | some sides => exact .inl ⟨sides.1, "..", sides.2, by simp, Text.eq_of_cut? hshort, rfl⟩
    | none => exact .inr rfl

/-- A text that is not refused is graphic and a range. -/
theorem isRange_of_isMalformed (h : isMalformed range = false) :
    IsGraphic range ∧ IsRange range := by
  obtain ⟨hgraphic, hsides, r, hr, hne⟩ := isMalformed_eq_false_iff.mp h
  refine ⟨hgraphic, ?_⟩
  rcases references_cases range with ⟨older, op, newer, hop, rfl, hrefs⟩ | hrefs
  · rw [hrefs] at hsides hr
    refine .between hop (hsides older (by simp)) (hsides newer (by simp)) ?_
    rintro ⟨rfl, rfl⟩
    simp [hne] at hr
  · rw [hrefs, List.mem_singleton] at hr
    subst hr
    exact .single hne (hsides r (by rw [hrefs]; exact List.mem_singleton_self r))

/-- What starts a range starts its older side or is the point of an operator. -/
theorem IsRange.head?_ne (h : IsRange range) : range.toList.head? ≠ some '-' := by
  cases h with
  | single _ hside => exact hside.plain
  | @between older op newer hop holder _ _ =>
    have hhead := holder.plain
    rw [String.toList_append, String.toList_append, List.append_assoc]
    cases hcs : older.toList with
    | nil =>
      rcases List.mem_pair.mp hop with rfl | rfl
      · simp
      · simp
    | cons c cs =>
      rw [hcs] at hhead
      simpa using hhead

end

/-! ## Plain ranges are accepted -/

section
variable {a : List Char} (hdots : ¬ ['.', '.'] <:+: a) (hstop : a.getLast? ≠ some '.')
include hdots hstop

/-- No operator begins in a text without two points in a row that does not end with a point. -/
theorem not_isPrefix_dots {after : List Char} (hafter : after <:+ a) (hne : after ≠ [])
    (rest : List Char) : ¬ ['.', '.'] <+: after ++ rest := by
  intro hprefix
  rcases after with _ | ⟨x, _ | ⟨y, after⟩⟩
  · exact hne rfl
  · obtain ⟨rfl, -⟩ := List.cons_prefix_cons.mp hprefix
    obtain ⟨front, rfl⟩ := hafter
    simp at hstop
  · obtain ⟨rfl, htail⟩ := List.cons_prefix_cons.mp hprefix
    obtain ⟨rfl, -⟩ := List.cons_prefix_cons.mp htail
    exact hdots (((List.prefix_append ['.', '.'] after).isInfix).trans hafter.isInfix)

/-- An operator in a text that goes on from such a text is in what it goes on with. -/
theorem isInfix_of_isInfix_append {op rest : List Char} (h : '.' :: '.' :: op <:+: a ++ rest) :
    '.' :: '.' :: op <:+: rest := by
  have hwalk : ∀ after, after <:+ a → '.' :: '.' :: op <:+: after ++ rest →
      '.' :: '.' :: op <:+: rest := by
    intro after
    induction after with
    | nil => exact fun _ h => h
    | cons c after ih =>
      intro hafter h
      rcases List.infix_cons_iff.mp h with hprefix | hinfix
      · have hbegins := (List.prefix_append ['.', '.'] op).trans hprefix
        exact absurd hbegins (not_isPrefix_dots hdots hstop hafter (by simp) rest)
      · exact ih ((List.suffix_cons c after).trans hafter) hinfix
  exact hwalk a List.suffix_rfl h

/-- A text is cut at the first operator after it. -/
theorem cutList?_dots (op b : List Char) :
    Text.cutList? ('.' :: '.' :: op) (a ++ ('.' :: '.' :: op ++ b)) = some (a, b) := by
  refine Text.cutList?_append (by simp) a b fun before after he hne => ?_
  rw [Option.eq_none_iff_forall_ne_some]
  intro rest hlead
  rw [Text.afterLead?_eq_some_iff] at hlead
  exact not_isPrefix_dots hdots hstop ⟨before, he⟩ hne _ ⟨op ++ rest, hlead.symm⟩

end

section
variable {older op newer : String}

/-- The longer operator is not found in place of the shorter one. -/
theorem cut?_longer_between (ho : IsEnd older) (hn : IsEnd newer) :
    Text.cut? "..." (older ++ ".." ++ newer) = none := by
  rw [Text.cut?_eq_none_iff, String.toList_append, String.toList_append, List.append_assoc]
  intro hinfix
  have hrest := isInfix_of_isInfix_append ho.undotted ho.stop hinfix
  -- the longer operator would need a point that `newer` starts with, or be in `newer`
  have hstart : ¬ ['.'] <+: newer.toList := fun ⟨rest, hpoint⟩ => hn.start (by simp [← hpoint])
  change ['.', '.', '.'] <:+: '.' :: '.' :: newer.toList at hrest
  simp only [List.infix_cons_iff, List.cons_prefix_cons, true_and] at hrest
  rcases hrest with hpoint | ⟨rest, hdots⟩ | hinfix
  · exact hstart hpoint
  · exact hstart ⟨'.' :: rest, hdots⟩
  · exact hn.undotted (((List.prefix_append ['.', '.'] ['.']).isInfix).trans hinfix)

/-- The sides of a range are found again. -/
theorem references_between (hop : op ∈ ["..", "..."]) (ho : IsEnd older) (hn : IsEnd newer) :
    references (older ++ op ++ newer) = [older, newer] := by
  have hcut : ∀ rest : List Char, op.toList = '.' :: '.' :: rest →
      Text.cut? op (older ++ op ++ newer) = some (older, newer) := by
    intro rest hrest
    rw [Text.cut?, String.toList_append, String.toList_append, List.append_assoc, hrest,
      cutList?_dots ho.undotted ho.stop]
    simp
  rcases List.mem_pair.mp hop with rfl | rfl
  · rw [references, cut?_longer_between ho hn, hcut [] rfl]
    rfl
  · rw [references, hcut ['.'] rfl]
    rfl

end

/-- A reference without points in a row is the only one of its range. -/
theorem references_of_isSide {s : String} (h : IsSide s) : references s = [s] := by
  rcases references_cases s with ⟨older, op, newer, hop, rfl, -⟩ | hrefs
  · refine absurd ?_ h.undotted
    rw [String.toList_append, String.toList_append]
    rcases List.mem_pair.mp hop with rfl | rfl
    · exact ⟨older.toList, newer.toList, rfl⟩
    · exact ⟨older.toList, '.' :: newer.toList, by simp⟩
  · exact hrefs

namespace IsPlainRange

variable {range : String}

/-- A plain range is graphic. -/
theorem graphic (h : IsPlainRange range) : IsGraphic range := by
  cases h with
  | single _ hend => exact hend.graphic
  | between hop ho hn _ =>
    intro c hc
    simp only [String.toList_append, List.mem_append] at hc
    rcases hc with (hc | hc) | hc
    · exact ho.graphic c hc
    · rcases List.mem_pair.mp hop with rfl | rfl
      · have : c = '.' := by simpa using hc
        rw [this]
        decide
      · have : c = '.' := by simpa using hc
        rw [this]
        decide
    · exact hn.graphic c hc

/-- No plain range is refused. -/
theorem isMalformed_eq_false (h : IsPlainRange range) : isMalformed range = false := by
  rw [isMalformed_eq_false_iff]
  refine ⟨h.graphic, ?_⟩
  cases h with
  | single hne hend =>
    rw [references_of_isSide hend.toIsSide]
    simpa using ⟨hend.toIsSide, hne⟩
  | between hop ho hn hne =>
    rw [references_between hop ho hn]
    refine ⟨fun r hr => ?_, ?_⟩
    · rcases List.mem_pair.mp hr with rfl | rfl
      · exact ho.toIsSide
      · exact hn.toIsSide
    · simpa [imp_iff_not_or] using hne

/-- A plain range is not empty. -/
theorem ne_empty (h : IsPlainRange range) : range ≠ "" := by
  cases h with
  | single hne _ => exact hne
  | between _ _ _ hne =>
    rintro heq
    simp_all

end IsPlainRange

/-! ## The command for differences -/

/-- Analyzing differences starts at most one command, which is given the range of the text. -/
theorem events_analyze (limits : TimeoutSettings) (shown : String) (dir : Path) (text : String)
    (host : Host) (w : World) :
    (exec (analyze limits shown dir text) host w).2.events = w.events ∨
      ∃ range ended, normalizeRange text = .ok range ∧
        (exec (analyze limits shown dir text) host w).2.events =
          w.events ++ [.git dir (.diff range) ended] := by
  rw [analyze, exec_bind_ok exec_get]
  split
  · rename_i entries hdir
    cases hrange : normalizeRange text with
    | error e => exact .inl rfl
    | ok range =>
      refine .inr ⟨range, ?_⟩
      have hlift : exec (liftM (Except.ok range : Except Error (Option String)) :
          Action (Option String)) host w = (.ok range, w) := rfl
      obtain ⟨reply, w₁, -, hafter, ⟨out, err, hgit, -⟩ | ⟨e, hgit, -⟩⟩ :=
        git_cases dir (.diff range) limits.diff host w
      · have hdiff : exec (liftVcs (Vcs.diff limits dir range)) host w = (.ok out, w₁) := by
          rw [liftVcs, exec_adapt, Vcs.diff, hgit]
          rfl
        rw [exec_bind_ok hlift, exec_bind_ok hdiff]
        exact ⟨reply.ended, rfl, hafter.events⟩
      · have hdiff : exec (liftVcs (Vcs.diff limits dir range)) host w = (.error (.vcs e), w₁) := by
          rw [liftVcs, exec_adapt, Vcs.diff, hgit]
          rfl
        rw [exec_bind_ok hlift, exec_bind_error hdiff]
        exact ⟨reply.ended, rfl, hafter.events⟩
  · exact .inl rfl

/-- Changes that are not committed are meant by an empty text and by `working`, and by no other.
Any other text that is accepted is the trimmed text; it has neither blanks nor control characters,
does not start with a dash, and is one reference or two sides around an operator. So whatever the
text, analyzing differences starts at most one command, of which a single argument comes from the
text, and that argument is not an option. A reference, or up to two of them around an operator, is
accepted as it is. -/
theorem range_is_no_option (text : String) :
    (normalizeRange text = .ok none ↔ Text.trim text = "" ∨ Text.trim text = "working") ∧
    (∀ range, normalizeRange text = .ok (some range) →
      range = Text.trim text ∧ IsGraphic range ∧ range.toList.head? ≠ some '-' ∧ IsRange range) ∧
    (∀ limits shown dir host w,
      (exec (analyze limits shown dir text) host w).2.events = w.events ∨
        ∃ range argument ended, normalizeRange text = .ok range ∧
          (exec (analyze limits shown dir text) host w).2.events =
            w.events ++ [.git dir (.diff range) ended] ∧
          (GitCommand.diff range).invocation host.root =
            ⟨"git", ["diff", "--unified=0", "--no-color", "--no-ext-diff", "--relative", argument,
              "--"]⟩ ∧
          argument = range.getD "HEAD" ∧ argument.toList.head? ≠ some '-') ∧
    (IsPlainRange text → text ≠ "working" → normalizeRange text = .ok (some text)) := by
  have hsome : ∀ range, normalizeRange text = .ok (some range) →
      range = Text.trim text ∧ IsGraphic range ∧ IsRange range := by
    intro range h
    unfold normalizeRange at h
    dsimp only at h
    split at h
    · cases h
    · split at h
      · cases h
      · rename_i hmalformed
        cases h
        exact ⟨rfl, isRange_of_isMalformed (by simpa using hmalformed)⟩
  refine ⟨?_, fun range h => ?_, fun limits shown dir host w => ?_, fun h hne => ?_⟩
  · unfold normalizeRange
    dsimp only
    split
    · simp_all
    · split <;> simp_all
  · obtain ⟨htrim, hgraphic, hrange⟩ := hsome range h
    exact ⟨htrim, hgraphic, hrange.head?_ne, hrange⟩
  · rcases events_analyze limits shown dir text host w with hnone | ⟨range, ended, hrange, hevents⟩
    · exact .inl hnone
    · refine .inr ⟨range, _, ended, hrange, hevents, rfl, rfl, ?_⟩
      cases range with
      | none => decide
      | some range => exact (hsome range hrange).2.2.head?_ne
  · have htrim : Text.trim text = text := Text.trim_of_not_blank fun c hc => (h.graphic c hc).1
    simp [normalizeRange, htrim, h.ne_empty, hne, h.isMalformed_eq_false]

end CallImpact.Diff
