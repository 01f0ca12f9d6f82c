import CallImpact.Proofs.Ordered
import CallImpact.Proofs.Snapshot.Search
import CallImpact.Proofs.Snapshot.Writing

/-!
# The function at a line

A look-up by file and line has candidates in all files that the path selects. The one that starts
last is the answer, and of those that start on one line the one with the least number
(`functionAt?_eq_some_iff`). The exact path has no part in this. So a function of the given file
is the answer exactly when each candidate of another file starts before a function of the given
file that covers the line, or with it and has a greater number (`innermost_spec`).
-/

namespace CallImpact.Snapshot

/-! ## Candidates -/

/-- Whether a function is one that a look-up may give: it covers the line, and its stored path is
the given one or ends in a slash and a text that matches it. -/
structure IsCandidate (path : String) (line : Nat) (n : GraphNode) : Prop where
  file : n.file = path ∨
    ∃ base name, n.file = base ++ "/" ++ name ∧ Matches path.toList name.toList
  covers : covers line n

/-- Whether a function comes before another one: it starts later, or with it and has the lesser
number. -/
def Preferred (n m : GraphNode) : Prop :=
  m.lineStart < n.lineStart ∨ m.lineStart = n.lineStart ∧ n.id < m.id

/-- Of two functions at most one comes before the other. -/
theorem Preferred.asymm {n m : GraphNode} (h : Preferred n m) : ¬ Preferred m n := by
  unfold Preferred at *
  omega

/-- A function that comes before another one does not start earlier in its file. -/
theorem Preferred.le {n m : GraphNode} (h : Preferred n m) : m.lineStart ≤ n.lineStart := by
  unfold Preferred at h
  omega

section
variable {s : Snapshot} {path : String} {line : Nat} {n : GraphNode}

/-- A function is a candidate exactly when its file and its lines are found to fit. -/
theorem isCandidate_iff : IsCandidate path line n ↔ endsLike path n.file && covers line n := by
  rw [Bool.and_eq_true, endsLike_iff]
  exact ⟨fun h => ⟨h.file, h.covers⟩, fun h => ⟨h.1, h.2⟩⟩

/-- The nodes among which a look-up chooses are the candidates of the snapshot. -/
theorem mem_candidates_iff :
    n ∈ s.nodes.filter (fun m => endsLike path m.file && covers line m) ↔
      n ∈ s.nodes ∧ IsCandidate path line n := by
  rw [List.mem_filter, isCandidate_iff]

/-! ## The answer -/

/-- The answer is the candidate that comes before all others. -/
theorem functionAt?_eq_some_iff (hs : Increasing s.nodes) :
    s.functionAt? path line = some n ↔ n ∈ s.nodes ∧ IsCandidate path line n ∧
      ∀ m ∈ s.nodes, IsCandidate path line m → m = n ∨ Preferred n m := by
  have htrans : ∀ a b c : GraphNode, decide (b.lineStart ≤ a.lineStart) →
      decide (c.lineStart ≤ b.lineStart) → decide (c.lineStart ≤ a.lineStart) := by
    intro a b c hab hbc
    rw [decide_eq_true_eq] at *
    omega
  have htotal : ∀ a b : GraphNode,
      decide (b.lineStart ≤ a.lineStart) || decide (a.lineStart ≤ b.lineStart) := by
    intro a b
    rw [Bool.or_eq_true, decide_eq_true_eq, decide_eq_true_eq]
    omega
  have hids : Increasing (s.nodes.filter fun m => endsLike path m.file && covers line m) :=
    List.Pairwise.filter _ hs
  rw [functionAt?, covering, head?_mergeSort_eq_some_iff htrans htotal, ← and_assoc,
    ← mem_candidates_iff]
  constructor
  · rintro ⟨before, after, heq, hbefore, hafter⟩
    rw [heq] at hids
    refine ⟨by simp [heq], fun m hm hcandidate => ?_⟩
    have hmem := mem_candidates_iff.mpr ⟨hm, hcandidate⟩
    rw [heq, List.mem_append, List.mem_cons] at hmem
    rcases hmem with hmem | rfl | hmem
    · have hlt := hbefore m hmem
      rw [decide_eq_true_eq] at hlt
      exact .inr (.inl (by omega))
    · exact .inl rfl
    · have hle := hafter m hmem
      rw [decide_eq_true_eq] at hle
      have hid := (List.pairwise_cons.mp (List.pairwise_append.mp hids).2.1).1 m hmem
      exact .inr (by unfold Preferred; omega)
  · rintro ⟨hn, hfirst⟩
    obtain ⟨before, after, heq⟩ := List.append_of_mem hn
    have hothers : ∀ m ∈ before ++ n :: after, m = n ∨ Preferred n m := by
      intro m hm
      rw [← heq] at hm
      obtain ⟨hm, hcandidate⟩ := mem_candidates_iff.mp hm
      exact hfirst m hm hcandidate
    rw [heq] at hids
    refine ⟨before, after, heq, fun m hm hle => ?_, fun m hm => ?_⟩
    · have hid : m.id < n.id := (List.pairwise_append.mp hids).2.2 m hm n List.mem_cons_self
      rw [decide_eq_true_eq] at hle
      rcases hothers m (List.mem_append_left _ hm) with rfl | h
      · omega
      · unfold Preferred at h
        omega
    · rw [decide_eq_true_eq]
      rcases hothers m (by simp [hm]) with rfl | h
      · exact Nat.le_refl _
      · exact h.le

/-- There is no answer only where there is no candidate. -/
theorem functionAt?_eq_none_iff :
    s.functionAt? path line = none ↔ ∀ n ∈ s.nodes, ¬ IsCandidate path line n := by
  rw [functionAt?, covering, List.head?_eq_none_iff, ← List.length_eq_zero_iff,
    List.length_mergeSort, List.length_eq_zero_iff, List.eq_nil_iff_forall_not_mem]
  constructor
  · intro h n hn hcandidate
    exact h n (mem_candidates_iff.mpr ⟨hn, hcandidate⟩)
  · intro h n hn
    obtain ⟨hn, hcandidate⟩ := mem_candidates_iff.mp hn
    exact h n hn hcandidate

end

/-- Whether the answer of a look-up is a function of the given file itself that covers the line,
and no other such function starts later. -/
def IsAnsweredExactly (s : Snapshot) (path : String) (line : Nat) : Prop :=
  ∃ n, s.functionAt? path line = some n ∧ n ∈ s.nodes ∧ n.file = path ∧ covers line n ∧
    ∀ m ∈ s.nodes, m.file = path → covers line m → m.lineStart ≤ n.lineStart

/-- The answer of a look-up is the candidate that comes before all others, whatever the files of
these are, and there is one unless there are no candidates. Where functions of the given file
cover the line, the answer is the innermost of them exactly when each candidate of another file
comes behind one of them. -/
theorem innermost_spec {s : Snapshot} (hs : Increasing s.nodes) (path : String) (line : Nat) :
    (∀ n, s.functionAt? path line = some n ↔ n ∈ s.nodes ∧ IsCandidate path line n ∧
      ∀ m ∈ s.nodes, IsCandidate path line m → m = n ∨ Preferred n m) ∧
    (s.functionAt? path line = none ↔ ∀ n ∈ s.nodes, ¬ IsCandidate path line n) ∧
    ((∃ n ∈ s.nodes, n.file = path ∧ covers line n) →
      (IsAnsweredExactly s path line ↔
        ∀ m ∈ s.nodes, m.file ≠ path → IsCandidate path line m →
          ∃ n ∈ s.nodes, n.file = path ∧ covers line n ∧ Preferred n m)) := by
  refine ⟨fun n => functionAt?_eq_some_iff hs, functionAt?_eq_none_iff, ?_⟩
  rintro ⟨n₀, hn₀, hfile₀, hcovers₀⟩
  constructor
  · rintro ⟨n, hanswer, hn, hfile, hcovers, -⟩ m hm hother hcandidate
    obtain ⟨-, -, hfirst⟩ := (functionAt?_eq_some_iff hs).mp hanswer
    rcases hfirst m hm hcandidate with rfl | hpreferred
    · exact absurd hfile hother
    · exact ⟨n, hn, hfile, hcovers, hpreferred⟩
  · intro hbehind
    cases hanswer : s.functionAt? path line with
    | none => exact absurd ⟨.inl hfile₀, hcovers₀⟩ (functionAt?_eq_none_iff.mp hanswer n₀ hn₀)
    | some n =>
      obtain ⟨hn, hcandidate, hfirst⟩ := (functionAt?_eq_some_iff hs).mp hanswer
      have hfile : n.file = path := by
        by_contra hother
        -- the answer would come behind a function of the file, which it comes before
        obtain ⟨m, hm, hmfile, hmcovers, hpreferred⟩ := hbehind n hn hother hcandidate
        rcases hfirst m hm ⟨.inl hmfile, hmcovers⟩ with rfl | hpreferred'
        · exact hother hmfile
        · exact hpreferred.asymm hpreferred'
      refine ⟨n, hanswer, hn, hfile, hcandidate.covers, fun m hm hmfile hmcovers => ?_⟩
      rcases hfirst m hm ⟨.inl hmfile, hmcovers⟩ with rfl | hpreferred
      · exact Nat.le_refl _
      · exact hpreferred.le

/-- A function of a stored file that covers a stretch of lines. -/
def stretch (id : Int) (file : String) (lineStart lineEnd : Nat) : GraphNode :=
  { (default : GraphNode) with id, file, lineStart, lineEnd }

/-- Two functions of one file, and one of a file of the same name below. -/
def sharedName : Snapshot :=
  { nodes := [stretch 1 "main.go" 3 9, stretch 2 "main.go" 11 20, stretch 3 "cmd/main.go" 8 30] }

/-- The case of a line that a function of the file covers, and one of a file of the same name
below. -/
theorem innermost_spec_sharedName :
    Increasing sharedName.nodes ∧
    (∃ n ∈ sharedName.nodes, n.file = "main.go" ∧ covers 12 n) ∧
    IsCandidate "main.go" 12 (stretch 3 "cmd/main.go" 8 30) ∧
    sharedName.functionAt? "main.go" 12 = some (stretch 2 "main.go" 11 20) ∧
    IsAnsweredExactly sharedName "main.go" 12 := by
  have hs : Increasing sharedName.nodes := by simp [Increasing, sharedName, stretch]
  have hexact : ∃ n ∈ sharedName.nodes, n.file = "main.go" ∧ covers 12 n :=
    ⟨stretch 2 "main.go" 11 20, by simp [sharedName], rfl, rfl⟩
  have hcandidate : IsCandidate "main.go" 12 (stretch 3 "cmd/main.go" 8 30) :=
    ⟨.inr ⟨"cmd", "main.go", rfl, .refl _⟩, rfl⟩
  obtain ⟨-, -, hiff⟩ := innermost_spec hs "main.go" 12
  refine ⟨hs, hexact, hcandidate, by cbv, (hiff hexact).mpr fun m hm hother _ => ?_⟩
  refine ⟨stretch 2 "main.go" 11 20, by simp [sharedName], rfl, rfl, .inl ?_⟩
  have hm : m = stretch 3 "cmd/main.go" 8 30 := by
    simp only [sharedName, List.mem_cons, List.not_mem_nil, or_false] at hm
    rcases hm with rfl | rfl | rfl
    · exact absurd rfl hother
    · exact absurd rfl hother
    · rfl
  rw [hm]
  decide

/-- A function of another file wins over the one of the given file that covers the line, because it
starts later. -/
theorem exact_path_loses :
    (stretch 1 "main.go" 3 9 ∈ sharedName.nodes ∧ covers 9 (stretch 1 "main.go" 3 9)) ∧
    (stretch 1 "main.go" 3 9).file = "main.go" ∧
    sharedName.functionAt? "main.go" 9 = some (stretch 3 "cmd/main.go" 8 30) ∧
    ¬ IsAnsweredExactly sharedName "main.go" 9 := by
  have hanswer : sharedName.functionAt? "main.go" 9 = some (stretch 3 "cmd/main.go" 8 30) := by cbv
  refine ⟨⟨by simp [sharedName], rfl⟩, rfl, hanswer, ?_⟩
  rintro ⟨n, hn, -, hfile, -⟩
  rw [hanswer] at hn
  obtain rfl := Option.some.inj hn
  exact absurd hfile (by decide)

end CallImpact.Snapshot
