import CallImpact.Text.Cut

/-!
# Directory trees

A directory tree as a value, with files that hold something of a given type. The entries of a
directory are kept in the order of their names, so a walk through a tree meets paths in the order of
their components.
-/

namespace CallImpact

/-- A path below the root of a tree, by its components. -/
abbrev Path := List String

/-- A file, or a directory with named entries. -/
inductive FileTree (α : Type) where
  | file (content : α)
  | dir (entries : List (String × FileTree α))
  deriving Inhabited

/-- The components of a path as it is written; empty ones and `.` go no further, and `..` goes
back. -/
def pathOf (s : String) : Path :=
  ((Text.pieces '/' s).foldl (fun acc c =>
    if c = "" || c = "." then acc else if c = ".." then acc.tail else c :: acc) []).reverse

/-- The written form of a path below a written base. -/
def joinPath (base : String) : Path → String
  | [] => base
  | c :: cs => joinPath (if Text.endsWith base "/" then base ++ c else base ++ "/" ++ c) cs

/-- A written path below a written base; one that starts with a slash stands for itself. -/
def appendPath (base rest : String) : String :=
  if base = "" || Text.startsWith rest "/" then rest
  else if Text.endsWith base "/" then base ++ rest else base ++ "/" ++ rest

/-- The written form of a relative path. -/
def Path.text (p : Path) : String :=
  "/".intercalate p

/-- Why an operation on files fails. -/
inductive FileError where
  | notFound
  | exists
  | notDirectory
  | isDirectory
  /-- The content of a file is no text. -/
  | notText
  deriving Repr, BEq, DecidableEq, Inhabited

/-- The wording of a failed operation on files. -/
def FileError.message : FileError → String
  | .notFound => "No such file or directory (os error 2)"
  | .exists => "File exists (os error 17)"
  | .notDirectory => "Not a directory (os error 20)"
  | .isDirectory => "Is a directory (os error 21)"
  | .notText => "stream did not contain valid UTF-8"

namespace FileTree

variable {α : Type}

/-- The entries of a directory, none for a file. -/
def entries : FileTree α → List (String × FileTree α)
  | .file _ => []
  | .dir entries => entries

/-- What is at a path. -/
def get? (t : FileTree α) : Path → Option (FileTree α)
  | [] => some t
  | name :: rest => (t.entries.lookup name).bind fun sub => sub.get? rest

/-- Whether a tree is a directory. -/
def isDir : FileTree α → Bool
  | .file _ => false
  | .dir _ => true

/-- Whether there is a directory at a path. -/
def hasDir (t : FileTree α) (p : Path) : Bool :=
  (t.get? p).any isDir

/-- The content of the file at a path. -/
def content? (t : FileTree α) (p : Path) : Option α :=
  match t.get? p with
  | some (.file content) => some content
  | _ => none

/-- Whether there is a file at a path. -/
def hasFile (t : FileTree α) (p : Path) : Bool :=
  (t.content? p).isSome

/-- Whether there is anything at a path. -/
def has (t : FileTree α) (p : Path) : Bool :=
  (t.get? p).isSome

/-- Puts an entry into a list that is ordered by name, in place of one of the same name. -/
def putEntry (name : String) (sub : FileTree α) :
    List (String × FileTree α) → List (String × FileTree α)
  | [] => [(name, sub)]
  | (n, t) :: rest =>
    if name < n then (name, sub) :: (n, t) :: rest
    else if n < name then (n, t) :: putEntry name sub rest
    else (name, sub) :: rest

/-- Puts a tree at a path and makes the directories on the way; fails where a file is in the way. -/
def put? (sub : FileTree α) : Path → FileTree α → Option (FileTree α)
  | [], _ => some sub
  | _ :: _, .file _ => none
  | name :: rest, .dir entries =>
    (put? sub rest ((entries.lookup name).getD (.dir []))).map fun inner =>
      .dir (putEntry name inner entries)

/-- Writes a file and makes the directories on the way. A file in the way leaves the tree as it is,
and so does a directory in the place of the file. -/
def write (t : FileTree α) (p : Path) (content : α) : FileTree α :=
  if t.hasDir p then t else (put? (.file content) p t).getD t

/-- Makes a directory and those on the way; fails where a file is in the way. -/
def makeDir? (t : FileTree α) (p : Path) : Option (FileTree α) :=
  match t.get? p with
  | some (.dir _) => some t
  | some (.file _) => none
  | none => put? (.dir []) p t

/-- Makes a directory and those on the way, where that is possible. -/
def makeDir (t : FileTree α) (p : Path) : FileTree α :=
  (t.makeDir? p).getD t

/-- Removes what is at a path. -/
def remove : Path → FileTree α → FileTree α
  | _, .file content => .file content
  | [], t => t
  | [name], .dir entries => .dir (entries.filter fun (n, _) => n != name)
  | name :: rest, .dir entries =>
    match entries.lookup name with
    | some sub => .dir (putEntry name (remove rest sub) entries)
    | none => .dir entries

/-- Removes the file at a path; a directory there stays. -/
def removeFile (t : FileTree α) (p : Path) : FileTree α :=
  if t.hasFile p then remove p t else t

/-! ## Operations that can fail -/

/-- Whether a file stands on the way to a path. -/
def blocked (t : FileTree α) : Path → Bool
  | [] => false
  | [_] => !t.isDir
  | name :: rest => !t.isDir || ((t.entries.lookup name).any fun sub => sub.blocked rest)

/-- Makes a directory and those on the way. -/
def makeDirs (t : FileTree α) (p : Path) : Except FileError (FileTree α) :=
  if t.hasFile p then .error .exists
  else match t.makeDir? p with
    | some t => .ok t
    | none => .error .notDirectory

/-- Writes a file into a directory that exists. -/
def writeFile (t : FileTree α) (p : Path) (content : α) : Except FileError (FileTree α) :=
  if t.hasDir p then .error .isDirectory
  else if t.blocked p then .error .notDirectory
  else if !t.hasDir p.dropLast then .error .notFound
  else .ok (t.write p content)

/-- Moves a file to another place, where it replaces a file that is there. -/
def rename (t : FileTree α) (source target : Path) : Except FileError (FileTree α) :=
  match t.content? source with
  | none => .error .notFound
  | some content => (t.writeFile target content).map (·.removeFile source)

mutual

/-- The files of a tree with their paths, in the order of the paths' components. -/
def files (here : Path) : FileTree α → List (Path × α)
  | .file content => [(here, content)]
  | .dir entries => filesOf here entries

/-- The files below the entries of a directory. -/
def filesOf (here : Path) : List (String × FileTree α) → List (Path × α)
  | [] => []
  | (name, sub) :: rest => files (here ++ [name]) sub ++ filesOf here rest

end

end FileTree

/-- What a source file holds: text, or bytes that are no text. -/
inductive Content where
  | text (s : String)
  | binary
  deriving Repr, BEq, DecidableEq, Inhabited

end CallImpact
