import CallImpact.Sha256
import CallImpact.Text.Case
import CallImpact.Text.Cut
import CallImpact.Text.Number

/-!
# Identities of projects

A project is known by where its repository comes from. All ways to write the address of one remote
repository have one normal form, and the identifier of a project is a digest of that form.
-/

namespace CallImpact

/-- A project as it is known to the store. -/
structure ProjectIdentity where
  id : String
  name : String
  remote : Option String
  deriving Repr, BEq, DecidableEq, Inhabited

/-- An address without its scheme; `host:path` becomes `host/path`. -/
def withoutScheme (url : String) : String :=
  match Text.cut? "://" url with
  | some (_, rest) => rest
  | none =>
    match Text.cut? ":" url with
    | some (host, path) =>
      if Text.contains host "/" then url
      else host ++ "/" ++ Text.trimStartChars (· = '/') path
    | none => url

/-- An address without the user before its host. -/
def withoutUser (url : String) : String :=
  match Text.cut? "@" url with
  | some (user, rest) => if Text.contains user "/" then url else rest
  | none => url

/-- The normal form of the address of a remote repository: lower case, no scheme, no user, neither
`.git` nor slashes at the end. -/
def normalizeRemote (url : String) : String :=
  let url := withoutUser (withoutScheme (Text.lowercase (Text.trim url)))
  let url := Text.trimEndChars (· = '/') url
  Text.trimEndChars (· = '/') ((Text.before? ".git" url).getD url)

/-- The identifier of a project: sixteen hexadecimal digits of a digest. -/
def projectId (key : String) : String :=
  String.join (((Sha256.digest key.toUTF8.toList).take 8).map Text.hexByte)

/-- The identity of the project with a remote repository; it is named for the last part of the
address. -/
def ProjectIdentity.ofRemote (url : String) : ProjectIdentity :=
  let normal := normalizeRemote url
  { id := projectId normal, name := Text.lastPiece '/' normal, remote := some url }

/-- The identity of a project without a remote repository, from its directory. -/
def ProjectIdentity.ofDirectory (dir : String) : ProjectIdentity :=
  { id := projectId dir, name := Text.lastPiece '/' dir, remote := none }

end CallImpact
