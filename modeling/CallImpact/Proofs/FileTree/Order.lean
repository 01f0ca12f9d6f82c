import CallImpact.Proofs.FileTree
import Mathlib.Data.List.Induction
import Mathlib.Data.String.Basic

/-!
# The order of entries

What holds of the entries of each directory (`EachDir`) holds below each path. In a tree whose
directories have entries of different names (`HasDistinctNames`) an entry is what its name leads
to. A tree is in order (`IsOrdered`) when the names in each directory increase. The empty
directory is in order, and putting trees and files into one that is keeps it so (`IsOrdered.put?`,
`IsOrdered.write`).
-/

namespace CallImpact.FileTree

variable {α : Type}

/-- The subtree at a path in two parts is the subtree at the second part of the subtree at the
first. -/
theorem get?_append (t : FileTree α) (p q : Path) :
    t.get? (p ++ q) = (t.get? p).bind fun sub => sub.get? q := by
  induction p generalizing t with
  | nil => rfl
  | cons name p ih =>
    simp only [List.cons_append, get?]
    cases t.entries.lookup name with
    | none => rfl
    | some sub => exact ih sub

/-- A path leads to a file exactly when its content can be read. -/
theorem get?_eq_file_iff {t : FileTree α} {p : Path} {content : α} :
    t.get? p = some (file content) ↔ t.content? p = some content := by
  constructor
  · intro h
    rw [content?, h]
  · exact fun h => get?_of_at?_file (content?_eq_some_iff.mp h)

/-- What is read below a directory is what its own subtree has there. -/
theorem content?_append {t sub : FileTree α} {p : Path} (h : t.get? p = some sub) (q : Path) :
    t.content? (p ++ q) = sub.content? q := by
  rw [content?, get?_append, h]
  rfl

/-- A file stands below a directory exactly when its own subtree has it. -/
theorem hasFile_append {t sub : FileTree α} {p : Path} (h : t.get? p = some sub) (q : Path) :
    t.hasFile (p ++ q) = sub.hasFile q := by
  rw [hasFile, content?_append h]
  rfl

/-! ## All directories -/

/-- Whether the entries of all directories are as they should be. -/
def EachDir (post : List (String × FileTree α) → Prop) (t : FileTree α) : Prop :=
  ∀ p entries, t.get? p = some (.dir entries) → post entries

section
variable {post : List (String × FileTree α) → Prop}

/-- What holds of every directory of a tree holds of every directory of a subtree. -/
theorem EachDir.get? {t sub : FileTree α} {p : Path} (h : t.EachDir post)
    (hp : t.get? p = some sub) : sub.EachDir post := by
  intro q entries hq
  refine h (p ++ q) entries ?_
  rw [get?_append, hp]
  exact hq

/-- A file has no directories for a condition to fail in. -/
theorem eachDir_file (content : α) : (file content).EachDir post := by
  rintro (_ | ⟨name, p⟩) entries hp
  · cases hp
  · cases hp

/-- An entry that is found by its name is one of the entries. -/
theorem mem_of_lookup {entries : List (String × FileTree α)} {name : String} {sub : FileTree α}
    (h : entries.lookup name = some sub) : (name, sub) ∈ entries := by
  obtain ⟨before, after, rfl, -⟩ := List.lookup_eq_some_iff.mp h
  exact List.mem_append_right before List.mem_cons_self

/-- A condition that holds of the entries of a directory, and of every directory below it, holds
throughout. -/
theorem eachDir_dir {entries : List (String × FileTree α)} (hentries : post entries)
    (hsub : ∀ e ∈ entries, e.2.EachDir post) : (dir entries).EachDir post := by
  rintro (_ | ⟨name, p⟩) below hp
  · cases hp
    exact hentries
  · obtain ⟨sub, hlookup, hp⟩ := Option.bind_eq_some_iff.mp hp
    exact hsub _ (mem_of_lookup hlookup) p below hp

end

/-! ## Different names -/

/-- Whether the entries of all directories have different names. -/
def HasDistinctNames (t : FileTree α) : Prop :=
  t.EachDir fun entries => (entries.map (·.1)).Nodup

/-- A subtree of a tree with distinct names has distinct names. -/
theorem HasDistinctNames.get? {t sub : FileTree α} {p : Path} (h : t.HasDistinctNames)
    (hp : t.get? p = some sub) : sub.HasDistinctNames :=
  EachDir.get? h hp

/-- Where names are distinct, every entry is found by its name. -/
theorem lookup_of_mem {entries : List (String × FileTree α)} {name : String} {sub : FileTree α}
    (hnodup : (entries.map (·.1)).Nodup) (hmem : (name, sub) ∈ entries) :
    entries.lookup name = some sub := by
  induction entries with
  | nil => cases hmem
  | cons e rest ih =>
    obtain ⟨n, t⟩ := e
    rw [lookup_cons_ite]
    rw [List.map_cons, List.nodup_cons] at hnodup
    rcases List.mem_cons.mp hmem with heq | hmem
    · cases heq
      rw [if_pos rfl]
    · have hne : name ≠ n := fun he => hnodup.1 (List.mem_map.mpr ⟨(name, sub), hmem, he⟩)
      rw [if_neg hne]
      exact ih hnodup.2 hmem

/-- The entries of a directory are what their names lead to. -/
theorem HasDistinctNames.get?_singleton {t sub : FileTree α} {name : String}
    (h : t.HasDistinctNames) : t.get? [name] = some sub ↔ (name, sub) ∈ t.entries := by
  have hget : t.get? [name] = t.entries.lookup name := by
    rw [FileTree.get?]
    cases t.entries.lookup name <;> rfl
  rw [hget]
  refine ⟨mem_of_lookup, fun hmem => ?_⟩
  cases t with
  | file content => cases hmem
  | dir entries => exact lookup_of_mem (h [] entries rfl) hmem

/-! ## Increasing names -/

/-- Whether names of entries increase. -/
def Increase (entries : List (String × FileTree α)) : Prop :=
  entries.Pairwise fun a b => a.1 < b.1

/-- Names in increasing order are distinct. -/
theorem Increase.nodup {entries : List (String × FileTree α)} (h : Increase entries) :
    (entries.map (·.1)).Nodup :=
  List.pairwise_map.mpr (h.imp fun hlt => ne_of_lt hlt)

/-- Whether the names of the entries increase in all directories. -/
def IsOrdered (t : FileTree α) : Prop :=
  t.EachDir Increase

/-- The names within each directory of an ordered tree are distinct. -/
theorem IsOrdered.hasDistinctNames {t : FileTree α} (h : t.IsOrdered) : t.HasDistinctNames :=
  fun p entries hp => (h p entries hp).nodup

/-- A subtree of an ordered tree is ordered. -/
theorem IsOrdered.get? {t sub : FileTree α} {p : Path} (h : t.IsOrdered)
    (hp : t.get? p = some sub) : sub.IsOrdered :=
  EachDir.get? h hp

/-- A file alone is an ordered tree. -/
theorem isOrdered_file (content : α) : (file content).IsOrdered :=
  eachDir_file content

/-- A directory is in order when its entries are and what they hold is. -/
theorem isOrdered_dir_iff {entries : List (String × FileTree α)} :
    (dir entries).IsOrdered ↔ Increase entries ∧ ∀ e ∈ entries, e.2.IsOrdered := by
  constructor
  · intro h
    refine ⟨h [] entries rfl, fun e he => ?_⟩
    exact h.get? (h.hasDistinctNames.get?_singleton.mpr he)
  · exact fun ⟨hentries, hsub⟩ => eachDir_dir hentries hsub

/-! ## Putting -/

/-- After an entry is put among others, every entry is that one or was there before. -/
theorem mem_of_mem_putEntry {name : String} {sub : FileTree α}
    {entries : List (String × FileTree α)}
    {e : String × FileTree α} (h : e ∈ putEntry name sub entries) :
    e = (name, sub) ∨ e ∈ entries := by
  induction entries with
  | nil => exact .inl (List.mem_singleton.mp h)
  | cons first rest ih =>
    unfold putEntry at h
    split at h
    · exact List.mem_cons.mp h
    · split at h
      · rcases List.mem_cons.mp h with rfl | h
        · exact .inr List.mem_cons_self
        · exact (ih h).imp_right (List.mem_cons_of_mem first)
      · exact (List.mem_cons.mp h).imp_right (List.mem_cons_of_mem first)

/-- An entry is put in its place. -/
theorem Increase.putEntry {name : String} {sub : FileTree α} {entries : List (String × FileTree α)}
    (h : Increase entries) : Increase (FileTree.putEntry name sub entries) := by
  induction entries with
  | nil => exact List.pairwise_singleton _ _
  | cons first rest ih =>
    obtain ⟨hfirst, hrest⟩ := List.pairwise_cons.mp h
    unfold FileTree.putEntry
    split
    · rename_i hlt
      refine List.pairwise_cons.mpr ⟨fun e he => ?_, h⟩
      rcases List.mem_cons.mp he with rfl | he
      · exact hlt
      · exact lt_trans hlt (hfirst e he)
    · split
      · rename_i hlt
        refine List.pairwise_cons.mpr ⟨fun e he => ?_, ih hrest⟩
        rcases mem_of_mem_putEntry he with rfl | he
        · exact hlt
        · exact hfirst e he
      · rename_i hle hge
        obtain rfl : name = first.1 := le_antisymm (not_lt.mp hge) (not_lt.mp hle)
        exact List.pairwise_cons.mpr ⟨hfirst, hrest⟩

/-- A tree in order that is put into another one leaves that in order. -/
theorem IsOrdered.put? {sub t t' : FileTree α} {p : Path} (hsub : sub.IsOrdered) (ht : t.IsOrdered)
    (h : FileTree.put? sub p t = some t') : t'.IsOrdered := by
  induction p generalizing t t' with
  | nil =>
    cases h
    exact hsub
  | cons name p ih =>
    cases t with
    | file content => cases h
    | dir entries =>
      obtain ⟨inner, hinner, rfl⟩ := Option.map_eq_some_iff.mp h
      obtain ⟨hentries, hbelow⟩ := isOrdered_dir_iff.mp ht
      have hold : ((entries.lookup name).getD (.dir [])).IsOrdered := by
        cases hlookup : entries.lookup name with
        | none => exact isOrdered_dir_iff.mpr ⟨.nil, by simp⟩
        | some old => exact hbelow _ (mem_of_lookup hlookup)
      refine isOrdered_dir_iff.mpr ⟨hentries.putEntry, fun e he => ?_⟩
      rcases mem_of_mem_putEntry he with rfl | he
      · exact ih hold hinner
      · exact hbelow e he

/-- Writing a file keeps a tree in order. -/
theorem IsOrdered.write {t : FileTree α} (h : t.IsOrdered) (p : Path) (content : α) :
    (t.write p content).IsOrdered := by
  unfold FileTree.write
  split
  · exact h
  · cases hput : FileTree.put? (file content) p t with
    | none => exact h
    | some t' => exact (isOrdered_file content).put? h hput

/-- A tree that is written file by file is in order. -/
theorem isOrdered_written (files : List (Path × α)) :
    (files.foldl (fun t file => t.write file.1 file.2) (dir [])).IsOrdered := by
  induction files using List.reverseRecOn with
  | nil => exact isOrdered_dir_iff.mpr ⟨.nil, by simp⟩
  | append_singleton files file ih =>
    rw [List.foldl_append]
    exact ih.write file.1 file.2

end CallImpact.FileTree
