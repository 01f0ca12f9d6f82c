import CallImpact.CommandLine.Arguments

/-!
# Help

The help text of a command: what it does, how it is used, the commands below it, its arguments and
its options. Options come by the order in which their command declares them; of those with the
same rank, inherited or not, by name.
-/

namespace CallImpact.CommandLine

/-- How the program is called. -/
def programName : String := "ripple"

/-- The width of a line. -/
def lineWidth : Nat := 100

/-- An option as its long form shows it, with its value. -/
def OptionSpec.shown (o : OptionSpec) : String :=
  "--" ++ o.long ++ match o.role with
    | .value shown _ => " <" ++ shown ++ ">"
    | .counter => "..."
    | .flag | .help | .version => ""

/-- An option as the list of options shows it. -/
def OptionSpec.entry (o : OptionSpec) : String :=
  match o.short with
  | some c => "-" ++ String.singleton c ++ ", " ++ o.shown
  | none => "    " ++ o.shown

/-- What follows the description of an option or argument. -/
def remarks (environment standard : Option String) : List String :=
  ((environment.map fun e => "[env: " ++ e ++ "=]").toList)
    ++ ((standard.map fun s => "[default: " ++ s ++ "]").toList)

/-- The description of an option with its remarks. -/
def OptionSpec.text (o : OptionSpec) : String :=
  Text.join " " (o.about :: remarks o.environment o.standard)

/-- An argument as usage shows it. -/
def ArgumentSpec.shown (a : ArgumentSpec) : String :=
  let name := a.name.toUpper
  if a.standard.isSome then "[" ++ name ++ "]" else "<" ++ name ++ ">"

/-- The description of an argument with its remarks. -/
def ArgumentSpec.text (a : ArgumentSpec) : String :=
  Text.join " " (a.about :: remarks none a.standard)

/-- By what options with the same rank are sorted. -/
def OptionSpec.sortKey (o : OptionSpec) : String :=
  match o.short with
  | some c => String.singleton c.toLower ++ (if c.isLower then "0" else "1")
  | none => o.long

/-- The options of a level with their ranks: each has its place among those of its command, and
help and the version come last. -/
def rankedOptions (chain : List CommandSpec) : List (Nat × OptionSpec) :=
  match chain with
  | [] => []
  | c :: outer =>
    let handedDown := outer.flatMap fun (d : CommandSpec) => d.options.zipIdx.filter (·.1.inherited)
    (c.options.zipIdx ++ handedDown).map fun (o, n) => (n, o)

/-- Whether an option comes before another. -/
def optionBefore (a b : Nat × OptionSpec) : Bool :=
  decide (a.1 < b.1) || (a.1 == b.1 && decide (a.2.sortKey ≤ b.2.sortKey))

/-- The options that help lists. -/
def listedOptions (chain : List CommandSpec) : List OptionSpec :=
  ((rankedOptions chain).mergeSort optionBefore).map (·.2)
    ++ [helpOption] ++ (if chain.length ≤ 1 then [versionOption] else [])

/-- Two columns, of which the first one is indented in itself; the second one starts on lines of
its own when the first one takes much of the width and leaves a description too little. -/
def columns (indent : Nat) (rows : List (String × String)) : List String :=
  let blanks (n : Nat) := String.ofList (List.replicate n ' ')
  let longest := (rows.map fun r => r.1.length).foldl max 0
  let taken := longest + 12 - indent
  let apart := decide (10 * taken > 4 * lineWidth)
    && rows.any fun r => decide (r.2.length > lineWidth - taken)
  rows.flatMap fun (first, second) =>
    if apart then ["  " ++ first, blanks 10 ++ second]
    else ["  " ++ Text.padRight longest first ++ "  " ++ second]

/-- How a command is used. -/
def CommandSpec.usage (c : CommandSpec) : String :=
  let alternatives := c.options.filter fun o => c.alternatives.contains o.long
  Text.join " " ([programName] ++ c.names ++ ["[OPTIONS]"]
    ++ (if alternatives.isEmpty then [] else
      ["<" ++ Text.join "|" (alternatives.map (·.shown)) ++ ">"])
    ++ c.arguments.map (·.shown)
    ++ (if c.below.isEmpty then [] else ["<COMMAND>"]))

/-- The commands around a command, from itself outwards. -/
def CommandSpec.chain (c : CommandSpec) : List CommandSpec :=
  (commands.filter fun d => d.names.isPrefixOf c.names).reverse ++ [program]

/-- A part of help under a heading; nothing without rows. -/
def helpSection (heading : String) (rows : List String) : List String :=
  if rows.isEmpty then [] else ["", heading] ++ rows

/-- The help text of a command. -/
def CommandSpec.help (c : CommandSpec) : List String :=
  let below := if c.below.isEmpty then [] else
    (c.below.map fun d => (d.name, d.about))
      ++ [("help", "Print this message or the help of the given subcommand(s)")]
  [c.about, "", "Usage: " ++ c.usage]
    ++ helpSection "Commands:" (columns 0 below)
    ++ helpSection "Arguments:" (columns 0 (c.arguments.map fun a => (a.shown, a.text)))
    ++ helpSection "Options:" (columns 4 ((listedOptions c.chain).map fun o => (o.entry, o.text)))

end CallImpact.CommandLine
