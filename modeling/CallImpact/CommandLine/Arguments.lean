import CallImpact.CommandLine.Usage

/-!
# Arguments

Reading a command line, word by word from the left. Each command that is entered opens a level of
its own; options that the levels above hand down may be given at any level, and the innermost
level that gives one decides its value. Help, the version and errors of usage end the reading
where they are met.
-/

namespace CallImpact.CommandLine

/-- Why a command line is read no further. -/
inductive Stop where
  | usage
  | help (command : CommandSpec)
  | version
  deriving Repr, BEq, DecidableEq, Inhabited

/-- What is given to one command: its options and arguments by name, in order. -/
structure Level where
  command : CommandSpec
  /-- The options that are known here. -/
  options : List OptionSpec
  given : List (String × String) := []
  /-- How many arguments are given. -/
  position : Nat := 0
  deriving Repr, BEq, DecidableEq, Inhabited

/-- A command line that has been read so far. -/
structure Reading where
  level : Level
  /-- The levels around, the innermost first. -/
  outer : List Level := []
  /-- The option whose value comes next. -/
  awaited : Option OptionSpec := none
  /-- Whether all that follows is arguments. -/
  literal : Bool := false
  /-- The command for which help is asked by name. -/
  explained : Option CommandSpec := none
  deriving Repr, BEq, DecidableEq, Inhabited

namespace Level

/-- The level of the program itself. -/
def start : Level :=
  { command := program, options := program.options ++ [helpOption, versionOption] }

/-- The level of a command below. -/
def enter (l : Level) (c : CommandSpec) : Level :=
  { command := c, options := c.options ++ l.options.filter (·.inherited) ++ [helpOption] }

/-- Whether something is given here. -/
def has (l : Level) (name : String) : Bool :=
  l.given.any fun g => g.1 == name

/-- The values that are given here for a name. -/
def values (l : Level) (name : String) : List String :=
  (l.given.filter fun g => g.1 == name).map (·.2)

/-- Takes values for a name. -/
def give (l : Level) (name : String) (values : List String) : Level :=
  { l with given := l.given ++ values.map fun v => (name, v) }

/-- Takes an option without a value. -/
def takeFlag (l : Level) (o : OptionSpec) : Except Stop Level :=
  match o.role with
  | .help => .error (.help l.command)
  | .version => .error .version
  | .value _ _ => .error .usage
  | .flag | .counter =>
    if l.has o.long && !o.repeatable then .error .usage else .ok (l.give o.long [""])

/-- Takes the value of an option. -/
def takeValue (l : Level) (o : OptionSpec) (value : String) : Except Stop Level :=
  match o.role with
  | .value _ kind =>
    let values := if o.commas then Text.pieces ',' value else [value]
    if l.has o.long && !o.repeatable then .error .usage
    else if values.all kind.accepts then .ok (l.give o.long values)
    else .error .usage
  | .flag | .counter | .help | .version => .error .usage

/-- Takes the next argument. -/
def takeArgument (l : Level) (value : String) : Except Stop Level :=
  match l.command.arguments[l.position]? with
  | some a =>
    if a.kind.accepts value then .ok { l.give a.name [value] with position := l.position + 1 }
    else .error .usage
  | none => .error .usage

/-- Takes flags that are written as single characters. -/
def takeShort (l : Level) (flags : List Char) : Except Stop Level :=
  flags.foldlM (fun l c =>
    match l.options.find? fun o => o.short == some c with
    | some o => l.takeFlag o
    | none => .error .usage) l

/-- Whether what is given is all that the command needs, and no more than it allows. -/
def isComplete (l : Level) : Bool :=
  (l.command.arguments.all fun a => a.standard.isSome || l.has a.name)
    && (l.command.alternatives.isEmpty || (l.command.alternatives.filter l.has).length == 1)
    && (l.command.exclusive.all fun (a, b) => !(l.has a && l.has b))

end Level

/-- Whether a word is written like an option. -/
def isOptionLike (word : String) : Bool :=
  Text.startsWith word "-" && word != "-"

/-- Whether a word is a negative number. -/
def isNegative (word : String) : Bool :=
  match word.toList with
  | '-' :: digits => !digits.isEmpty && digits.all Text.isDecimalDigit
  | _ => false

namespace Reading

/-- Reads an option that is written by name, with its value if that follows an equals sign. -/
def long (r : Reading) (text : String) : Except Stop Reading := do
  let (name, value) := match Text.cut? "=" text with
    | some (name, value) => (name, some value)
    | none => (text, none)
  match r.level.options.find? fun o => o.long == name with
  | none => .error .usage
  | some o =>
    match o.role, value with
    | _, some value => return { r with level := ← r.level.takeValue o value }
    | .value _ _, none => return { r with awaited := some o }
    | _, none => return { r with level := ← r.level.takeFlag o }

/-- Reads a word that stands where an option, an argument or a command may stand. -/
def word (r : Reading) (w : String) : Except Stop Reading := do
  match r.level.command.find? w with
  | some c => return { level := r.level.enter c, outer := r.level :: r.outer }
  | none =>
    if w = "help" && !r.level.command.below.isEmpty then
      return { r with explained := some r.level.command }
    else if w = "--" then return { r with literal := true }
    else match Text.after? "--" w with
      | some text => r.long text
      | none =>
        if isOptionLike w then return { r with level := ← r.level.takeShort (w.toList.drop 1) }
        else return { r with level := ← r.level.takeArgument w }

/-- Reads one word. -/
def step (r : Reading) (w : String) : Except Stop Reading := do
  match r.explained, r.awaited with
  | some c, _ =>
    match c.find? w with
    | some d => return { r with explained := some d }
    | none => .error .usage
  | none, some o =>
    if isOptionLike w && !(o.negative && isNegative w) then .error .usage
    else return { r with level := ← r.level.takeValue o w, awaited := none }
  | none, none =>
    if r.literal then return { r with level := ← r.level.takeArgument w } else r.word w

/-- The levels of a command line that has been read to its end, the innermost first. -/
def finish (r : Reading) : Except Stop (List Level) :=
  match r.explained with
  | some c => .error (.help c)
  | none =>
    let levels := r.level :: r.outer
    if r.awaited.isSome || !r.level.command.below.isEmpty then .error .usage
    else if levels.all (·.isComplete) then .ok levels
    else .error .usage

end Reading

/-- Reads a command line. -/
def readArguments (words : List String) : Except Stop (List Level) := do
  (← words.foldlM Reading.step { level := .start }).finish

end CallImpact.CommandLine
