import CallImpact.Build

/-!
# Usage

The commands of the program, with their options and arguments and what those may be. Reading a
command line and writing help both follow this table.
-/

namespace CallImpact.CommandLine

/-- What a value may be. -/
inductive ValueKind where
  | text
  | path
  | algorithm
  | entryPoint
  /-- A whole number within bounds. -/
  | integer (low high : Int)
  /-- A number of things, written without a minus sign. -/
  | count
  deriving Repr, BEq, DecidableEq, Inhabited

/-- Whether a text is such a value. -/
def ValueKind.accepts : ValueKind → String → Bool
  | .text, _ => true
  | .path, s => s != ""
  | .algorithm, s => (Algorithm.parse s).toOption.isSome
  | .entryPoint, s => (EntryPoint.parse s).toOption.isSome
  | .integer low high, s => (Text.readInt? s).any fun n => decide (low ≤ n) && decide (n ≤ high)
  | .count, s => (Text.readNat? Text.max64 s).isSome

/-- What an option does. -/
inductive Role where
  | flag
  /-- A flag that counts how often it is given. -/
  | counter
  | value (shown : String) (kind : ValueKind)
  | help
  | version
  deriving Repr, BEq, DecidableEq, Inhabited

/-- An option. -/
structure OptionSpec where
  long : String
  short : Option Char := none
  role : Role := .flag
  about : String
  /-- The value when the option is not given. -/
  standard : Option String := none
  /-- Whether the option may be given again. -/
  repeatable : Bool := false
  /-- Whether commas divide the value into several. -/
  commas : Bool := false
  /-- Whether the value may be a negative number. -/
  negative : Bool := false
  /-- Whether the commands below know the option too. -/
  inherited : Bool := false
  /-- The variable of the environment that may give the value. -/
  environment : Option String := none
  deriving Repr, BEq, DecidableEq, Inhabited

/-- An argument that is given by its position. -/
structure ArgumentSpec where
  name : String
  kind : ValueKind := .text
  about : String
  /-- The value when the argument is not given; it must be given if there is none. -/
  standard : Option String := none
  deriving Repr, BEq, DecidableEq, Inhabited

/-- A command; `names` leads to it from the program, which has none. -/
structure CommandSpec where
  names : List String
  about : String
  options : List OptionSpec := []
  arguments : List ArgumentSpec := []
  /-- Options of which exactly one must be given. -/
  alternatives : List String := []
  /-- Options that exclude each other. -/
  exclusive : List (String × String) := []
  deriving Repr, BEq, DecidableEq, Inhabited

/-! ## The commands -/

/-- The option for a directory. -/
def pathOption : OptionSpec :=
  { long := "path", role := .value "PATH" .path, standard := some "."
    about := "Path to the repository (default: current directory)" }

/-- The option for a commit. -/
def commitOption (about : String) : OptionSpec :=
  { long := "commit", role := .value "COMMIT" .text, about }

/-- The argument for a directory. -/
def pathArgument (about : String) : ArgumentSpec :=
  { name := "path", kind := .path, standard := some ".", about }

/-- The argument for a commit. -/
def commitArgument : ArgumentSpec :=
  { name := "commit", about := "Full commit id or prefix" }

/-- The option that every command has. -/
def helpOption : OptionSpec :=
  { long := "help", short := some 'h', role := .help, about := "Print help" }

/-- The option that only the program itself has. -/
def versionOption : OptionSpec :=
  { long := "version", short := some 'V', role := .version, about := "Print version" }

/-- The program itself. -/
def program : CommandSpec :=
  { names := []
    about := "Call graphs, diff and change impact for Go repositories"
    options :=
      [ { long := "config", role := .value "CONFIG" .path, inherited := true
          environment := some "RIPPLE_CONFIG"
          about := "Config file (default: ~/.config/ripple/config.toml)" },
        { long := "json", inherited := true, about := "Print results as JSON" },
        { long := "verbose", short := some 'v', role := .counter, repeatable := true
          inherited := true, about := "Increase verbosity (-v, -vv, -vvv)" },
        { long := "quiet", short := some 'q', inherited := true
          about := "Suppress non-error output" } ] }

/-- The command that lists entry points. -/
def scanCommand : CommandSpec :=
  { names := ["scan"]
    about := "List candidate entry points (main and init functions)"
    arguments := [pathArgument "Path to the Go module (default: current directory)"] }

/-- The command that compares the stored graphs with a commit. -/
def statusCommand : CommandSpec :=
  { names := ["status"]
    about := "Show whether a call graph exists for HEAD or a commit"
    arguments := [pathArgument "Path to the repository (default: current directory)"]
    options := [commitOption "Commit to check instead of HEAD"] }

/-- The command that builds and stores a graph. -/
def generateCommand : CommandSpec :=
  { names := ["generate"]
    about := "Build and store the call graph of a commit"
    arguments := [pathArgument "Path to the Go module (default: current directory)"]
    options :=
      [ commitOption "Commit, branch or tag to analyze (default: HEAD, built in place)",
        { long := "algorithm", role := .value "ALGORITHM" .algorithm
          about := "Construction algorithm: static, cha, rta, vta" },
        { long := "entry", role := .value "ENTRIES" .entryPoint, repeatable := true
          about := "Entry point as `file:function` or `function` (repeatable)" },
        { long := "fallback"
          about := "Fall back to a cheaper algorithm if construction fails" } ] }

/-- The command that lists changed functions. -/
def diffCommand : CommandSpec :=
  { names := ["diff"]
    about := "Map a diff onto the functions it changes"
    arguments :=
      [ { name := "range", standard := some ""
          about :=
            "Commit range (`a..b`, `a...b` or a single ref); omit for uncommitted changes" } ]
    options := [pathOption] }

/-- The command that lists callers. -/
def impactCommand : CommandSpec :=
  { names := ["impact"]
    about := "Transitive callers of functions, or of everything a diff changes"
    options :=
      [ { long := "functions", role := .value "FUNCTIONS" .text, repeatable := true, commas := true
          about := "Full or canonical function names (comma-separated)" },
        { long := "range", role := .value "RANGE" .text
          about :=
            "Analyze every function changed in this range (`working` for uncommitted changes)" },
        { long := "depth", role := .value "DEPTH" (.integer (-2147483648) 2147483647)
          standard := some "3", negative := true
          about := "Maximum caller depth; zero or less uses the default" },
        commitOption "Stored graph to query (default: latest)",
        pathOption ]
    alternatives := ["functions", "range"]
    exclusive := [("commit", "range")] }

/-- The commands that manage stored graphs. -/
def historyCommands : List CommandSpec :=
  [ { names := ["history"]
      about := "List and manage stored call graphs"
      options := [{ pathOption with inherited := true }] },
    { names := ["history", "list"]
      about := "List stored call graphs, newest first" },
    { names := ["history", "set-latest"]
      about := "Make a stored graph the one queries use by default"
      arguments := [commitArgument] },
    { names := ["history", "delete"]
      about := "Delete a stored graph"
      arguments := [commitArgument] },
    { names := ["history", "clean"]
      about := "Apply retention now"
      options :=
        [ { long := "max-count", role := .value "MAX_COUNT" .count
            about := "Keep at most this many graphs (default: from config)" },
          { long := "max-age-days", role := .value "MAX_AGE_DAYS" (.integer 0 4294967295)
            about :=
              "Drop graphs older than this many days; 0 disables (default: from config)" } ] } ]

/-- The command that finds functions. -/
def searchCommand : CommandSpec :=
  { names := ["search"]
    about := "Find functions in a stored call graph"
    arguments :=
      [ { name := "query"
          about := "`file:line`, a `.go` path, a full name, `pkg.Func` or a name fragment" } ]
    options :=
      [ { long := "limit", role := .value "LIMIT" .count, standard := some "20"
          about := "Maximum number of matches" },
        commitOption "Stored graph to search (default: latest)",
        pathOption ] }

/-- The command that lists callees. -/
def calleesCommand : CommandSpec :=
  { names := ["callees"]
    about := "Transitive callees of a function"
    arguments := [{ name := "function", about := "Full or canonical function name" }]
    options :=
      [ { long := "depth", role := .value "DEPTH" (.integer 0 4294967295), standard := some "1"
          about := "Maximum callee depth" },
        commitOption "Stored graph to query (default: latest)",
        pathOption ] }

/-- All commands below the program, in the order in which help lists them. -/
def commands : List CommandSpec :=
  [scanCommand, statusCommand, generateCommand, diffCommand, impactCommand]
    ++ historyCommands ++ [searchCommand, calleesCommand]

/-- The commands directly below a command. -/
def CommandSpec.below (c : CommandSpec) : List CommandSpec :=
  commands.filter fun d => d.names.dropLast == c.names

/-- The name of a command below another. -/
def CommandSpec.name (c : CommandSpec) : String :=
  c.names.getLast?.getD ""

/-- The command of a name directly below a command. The program itself is not below anything. -/
def CommandSpec.find? (c : CommandSpec) (name : String) : Option CommandSpec :=
  c.below.find? fun d => d.name == name

end CallImpact.CommandLine
