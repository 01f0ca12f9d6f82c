/-!
# Glob patterns

`?` stands for any character, `*` for any text, `[...]` for one character of a class and `[!...]`
for one outside it, slashes included in all four. `**` stands for whole directories and must be a
whole path component. A pattern that breaks these rules does not compile.
-/

namespace CallImpact.Glob

/-- A member of a character class. -/
inductive Member where
  | single (c : Char)
  | range (first last : Char)
  deriving Repr, BEq, DecidableEq

/-- A part of a pattern. -/
inductive Part where
  | literal (c : Char)
  | anyChar
  | anyText
  | anyDirectories
  | within (members : List Member)
  | except (members : List Member)
  deriving Repr, BEq, DecidableEq

/-- Whether a character belongs to a member of a class. -/
def Member.holds (c : Char) : Member → Bool
  | .single d => c = d
  | .range first last => first ≤ c && c ≤ last

/-- The members of a class: `a-z` is a range, all else stands for itself. -/
def members : List Char → List Member
  | a :: '-' :: b :: rest => .range a b :: members rest
  | a :: rest => .single a :: members rest
  | [] => []

/-- Splits the body of a class from what follows its closing bracket. The first character does not
close it. -/
def classBody? : List Char → Option (List Char × List Char)
  | [] => none
  | first :: more =>
    match more.dropWhile (· ≠ ']') with
    | _ :: rest => some (first :: more.takeWhile (· ≠ ']'), rest)
    | [] => none

/-- What follows a class is shorter than what it starts with. -/
theorem classBody?_length {cs body rest : List Char} (h : classBody? cs = some (body, rest)) :
    rest.length < cs.length := by
  cases cs with
  | nil => simp [classBody?] at h
  | cons first more =>
    simp only [classBody?] at h
    split at h
    · rename_i c tail heq
      obtain ⟨-, rfl⟩ := by simpa using h
      have := (List.dropWhile_suffix (l := more) (fun c => decide (c ≠ ']'))).length_le
      rw [heq] at this
      simp only [List.length_cons] at this ⊢
      omega
    · simp at h

/-- Adds a directory wildcard, unless the pattern has parts before it and the last one is such. -/
def addDirectories (parts : List Part) : List Part :=
  match parts with
  | .anyDirectories :: _ :: _ => parts
  | _ => .anyDirectories :: parts

/-- Compiles the rest of a pattern. `parts` holds the parts before it, the last one first; `opens`
says whether a path component starts here. -/
def compileFrom (parts : List Part) (opens : Bool) (cs : List Char) : Option (List Part) :=
  match cs with
  | [] => some parts.reverse
  | '?' :: rest => compileFrom (.anyChar :: parts) false rest
  | '*' :: '*' :: '*' :: _ => none
  | '*' :: '*' :: rest =>
    if opens then
      match rest with
      | [] => some (addDirectories parts).reverse
      | '/' :: rest => compileFrom (addDirectories parts) true rest
      | _ => none
    else none
  | '*' :: rest => compileFrom (.anyText :: parts) false rest
  | '[' :: '!' :: rest =>
    match h : classBody? rest with
    | some (body, after) =>
      have := classBody?_length h
      compileFrom (.except (members body) :: parts) false after
    | none => none
  | '[' :: rest =>
    match h : classBody? rest with
    | some (body, after) =>
      have := classBody?_length h
      compileFrom (.within (members body) :: parts) false after
    | none => none
  | c :: rest => compileFrom (.literal c :: parts) (c = '/') rest
termination_by cs.length
decreasing_by all_goals simp only [List.length_cons]; omega

/-- Compiles a pattern. -/
def compile? (pattern : String) : Option (List Part) :=
  compileFrom [] true pattern.toList

/-- All endings of a text, itself first. -/
def endings : List Char → List (List Char)
  | [] => [[]]
  | c :: cs => (c :: cs) :: endings cs

/-- What follows each slash, and the empty ending. -/
def afterSlashes : List Char → List (List Char)
  | [] => [[]]
  | c :: cs => if c = '/' then cs :: afterSlashes cs else afterSlashes cs

/-- What can be left after whole directories are skipped: all, what follows a slash, or nothing. -/
def afterDirectories (cs : List Char) : List (List Char) :=
  cs :: afterSlashes cs

/-- Whether a compiled pattern matches a whole text. -/
def matchesParts : List Part → List Char → Bool
  | [], cs => cs.isEmpty
  | .anyText :: parts, cs => (endings cs).any (matchesParts parts)
  | .anyDirectories :: parts, cs => (afterDirectories cs).any (matchesParts parts)
  | .literal d :: parts, c :: cs => c = d && matchesParts parts cs
  | .anyChar :: parts, _ :: cs => matchesParts parts cs
  | .within ms :: parts, c :: cs => ms.any (Member.holds c) && matchesParts parts cs
  | .except ms :: parts, c :: cs => !ms.any (Member.holds c) && matchesParts parts cs
  | _ :: _, [] => false

end CallImpact.Glob
