import CallImpact.Algorithm

/-!
# Errors

Causes of failure by where they arise, each with one function that words it. `Error` is what the
operations of the library report; it also carries a code, a suggestion and details.
-/

namespace CallImpact

/-- Why a module cannot be loaded or its graph built. -/
inductive GraphError where
  | parse (path message : String)
  | missingModule (path : String)
  | invalidRoot (path : String)
  | grammar (text : String)
  | algorithm (failure : Failure)
  | io (text : String)
  deriving Repr, BEq, DecidableEq, Inhabited

/-- The wording of a graph error. -/
def GraphError.message : GraphError → String
  | .parse path message => "Parse error in " ++ path ++ ": " ++ message
  | .missingModule path => "No go.mod found under " ++ path
  | .invalidRoot path => "Invalid source root: " ++ path
  | .grammar text => "Tree-sitter error: " ++ text
  | .algorithm failure => failure.message
  | .io text => "IO error: " ++ text

/-- Why an external command or the inspection of a repository failed. -/
inductive VcsError where
  | failed (command status stderr : String)
  | timeout (command : String) (seconds : Nat)
  | spawn (command text : String)
  | repository (text : String)
  deriving Repr, BEq, DecidableEq, Inhabited

/-- The wording of a command error. -/
def VcsError.message : VcsError → String
  | .failed command status stderr => "`" ++ command ++ "` exited with " ++ status ++ ": " ++ stderr
  | .timeout command seconds => "`" ++ command ++ "` timed out after " ++ toString seconds ++ "s"
  | .spawn command text => "Failed to spawn `" ++ command ++ "`: " ++ text
  | .repository text => "Repository error: " ++ text

/-- Why the store failed. -/
inductive StoreError where
  | database (text : String)
  | serialization (text : String)
  | io (text : String)
  deriving Repr, BEq, DecidableEq, Inhabited

/-- The wording of a store error. -/
def StoreError.message : StoreError → String
  | .database text => "SQLite error: " ++ text
  | .serialization text => "Serialization error: " ++ text
  | .io text => "IO error: " ++ text

/-- What the store reports of the cause of an error. -/
def StoreError.cause : StoreError → String
  | .database text | .serialization text | .io text => text

/-- Why a configuration or registry file cannot be used. -/
inductive ConfigError where
  | notFound (path : String)
  | invalid (text : String)
  | parse (text : String)
  | io (text : String)
  deriving Repr, BEq, DecidableEq, Inhabited

/-- The wording of a configuration error. -/
def ConfigError.message : ConfigError → String
  | .notFound path => "Config file not found: " ++ path
  | .invalid text => "Invalid config: " ++ text
  | .parse text => "Parse error: " ++ text
  | .io text => "IO error: " ++ text

/-- The wordings of a configuration error and of what it wraps, the outermost first. -/
def ConfigError.chain (e : ConfigError) : List String :=
  e.message :: match e with
    | .io text => [text]
    | .notFound _ | .invalid _ | .parse _ => []

/-- Why an operation failed. -/
inductive Error where
  | inputInvalid (text : String)
  | notFound (text : String)
  | algorithmFailed (failure : Failure)
  | vcs (error : VcsError)
  | store (error : StoreError)
  | config (error : ConfigError)
  | graph (error : GraphError)
  | internal (text : String)
  /-- The operation ended abnormally, without a result. -/
  | aborted
  deriving Repr, BEq, DecidableEq, Inhabited

namespace Error

/-- A graph error as an error of an operation. -/
def ofGraph : GraphError → Error
  | .algorithm failure => .algorithmFailed failure
  | .missingModule path => .inputInvalid (GraphError.missingModule path).message
  | .invalidRoot path => .inputInvalid (GraphError.invalidRoot path).message
  | other => .graph other

/-- The wording of an error. -/
def message : Error → String
  | .inputInvalid text => "Invalid input: " ++ text
  | .notFound text => "Not found: " ++ text
  | .algorithmFailed failure => failure.message
  | .vcs error => "External tool failed: " ++ error.message
  | .store error => "Store error: " ++ error.message
  | .config error => "Configuration error: " ++ error.message
  | .graph error => "Graph engine error: " ++ error.message
  | .internal text => "Internal error: " ++ text
  | .aborted => "operation aborted"

/-- The wordings of an error and of the errors that it wraps, the outermost first. -/
def chain (e : Error) : List String :=
  e.message :: match e with
    | .vcs (.spawn command text) => [(VcsError.spawn command text).message, text]
    | .vcs error => [error.message]
    | .store error => [error.message, error.cause]
    | .config error => error.chain
    | _ => []

/-- Whether something that was asked for does not exist. -/
def isNotFound : Error → Bool
  | .notFound _ => true
  | _ => false

/-- The code of an error. -/
def code : Error → String
  | .inputInvalid _ => "INPUT_INVALID"
  | .notFound _ => "NOT_FOUND"
  | .algorithmFailed _ => "ALGORITHM_FAILED"
  | .vcs _ => "EXTERNAL_TOOL_FAILED"
  | .store _ | .config _ | .graph _ | .internal _ | .aborted => "INTERNAL"

/-- What to try next. -/
def suggestion? : Error → Option String
  | .algorithmFailed failure => some failure.suggestion
  | .vcs (.timeout _ _) => some "raise the matching [timeouts] value or retry"
  | .vcs _ => some "check that the reference exists and git is installed"
  | .notFound _ => some "generate a call graph first"
  | _ => none

/-- What more there is to say. -/
def details? : Error → Option String
  | .algorithmFailed failure => some failure.details
  | .vcs (.failed _ _ stderr) => some stderr
  | _ => none

end Error

end CallImpact
