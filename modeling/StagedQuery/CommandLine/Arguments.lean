/-!
# Arguments of the command line

A command line names one command and gives options. An option has a long name and may have
a letter; its value stands in the next argument, or in the same one behind the name.
Letters of options without values may be put together. Options of all commands may stand
on either side of the command. No option may be given twice on one side.

Arguments are read from the left, and the first that is wrong, or that asks for help,
decides.
-/

namespace StagedQuery.CommandLine

/-- What the value of an option may be. -/
inductive ValueKind
  | text
  /-- The name of a file, which is not empty. -/
  | path
  /-- A whole number of at most 64 bits. -/
  | count
  | port
  deriving DecidableEq, Repr

/-- An option. -/
structure OptionSpec where
  long : String
  letter : Option Char := none
  /-- What its value may be, if it has one. -/
  value : Option ValueKind := none
  required : Bool := false
  about : String
  deriving Repr

/-- A command. -/
structure CommandSpec where
  name : String
  about : String
  options : List OptionSpec
  deriving Repr

/-- The options of all commands. -/
def globalOptions : List OptionSpec :=
  [{ long := "verbose", letter := some 'v', about := "Enable verbose logging" },
    { long := "config", letter := some 'c', value := some .path,
      about := "Configuration file path" }]

/-- The option that asks for help. -/
def helpOption : OptionSpec := { long := "help", letter := some 'h', about := "Print help" }

/-- The option that asks for the version. -/
def versionOption : OptionSpec :=
  { long := "version", letter := some 'V', about := "Print version" }

/-- The options of a command that takes a plan. -/
def planOptions : List OptionSpec :=
  [{ long := "plan", letter := some 'p', value := some .path, required := true,
     about := "Plan file" },
    { long := "parallelism", letter := some 'n', value := some .count,
      about := "Instances per parallel stage" }]

/-- The commands. -/
def commands : List CommandSpec :=
  [{ name := "worker", about := "Start a worker node"
     options :=
      [{ long := "name", letter := some 'n', value := some .text, required := true,
         about := "Worker name; looked up in the config file when host/port are omitted" },
        { long := "host", letter := some 'H', value := some .text, about := "Host to bind to" },
        { long := "port", letter := some 'p', value := some .port,
          about := "Control-plane port" }] },
    { name := "coordinator"
      about := "Start a coordinator that registers the configured workers and receives heartbeats"
      options :=
      [{ long := "host", letter := some 'H', value := some .text,
         about := "Host to bind the heartbeat listener to [default: 0.0.0.0]" },
        { long := "port", letter := some 'p', value := some .port,
          about := "Heartbeat port [default: 7070]" }] },
    { name := "run"
      about := "Plan, dispatch and collect a JSON logical plan on the configured workers"
      options := planOptions },
    { name := "explain", about := "Print the stage graph of a JSON logical plan"
      options := planOptions ++ [{ long := "json", about := "Print the graph as JSON" }] }]

/-! ### Reading arguments -/

/-- What help may be about. -/
inductive Topic
  | program
  | command (command : CommandSpec)
  /-- The word that asks for help on a command. -/
  | help

/-- Why no command is run. -/
inductive Refusal
  | help (topic : Topic)
  | version
  /-- The arguments make no sense. -/
  | usage

/-- Options that were given, by their long names; those without a value have the empty one. -/
abbrev Given := List (String × String)

/-- The number that digits spell. -/
def digitsOf? (digits : List Char) : Option Nat :=
  if digits.isEmpty ∨ !digits.all Char.isDigit then none
  else some (digits.foldl (fun n c => n * 10 + (c.toNat - '0'.toNat)) 0)

/-- The number that a text spells, with or without a plus. -/
def numberOf? (text : String) : Option Nat :=
  match text.toList with
  | '+' :: digits => digitsOf? digits
  | digits => digitsOf? digits

/-- The port that a text spells: a number with or without a sign, so that zero may have a
minus. -/
def portOf? (text : String) : Option UInt16 :=
  let number := match text.toList with
    | '-' :: digits => (digitsOf? digits).filter (· = 0)
    | _ => (numberOf? text).filter (· < 0x10000)
  number.map UInt16.ofNat

/-- Whether a text may be the value of an option. -/
def ValueKind.admits : ValueKind → String → Bool
  | text, _ => true
  | path, value => !value.isEmpty
  | count, value => (numberOf? value).any (· < 0x10000000000000000)
  | port, value => (portOf? value).isSome

/-- Give an option, once. -/
def give (option : OptionSpec) (value : String) (given : Given) : Except Refusal Given :=
  if (given.lookup option.long).isSome then .error .usage
  else match option.value with
    | some kind =>
      if kind.admits value then .ok (given ++ [(option.long, value)]) else .error .usage
    | none => .ok (given ++ [(option.long, "")])

/-- An argument that cannot be a value: it looks like an option. -/
def looksLikeOption (argument : String) : Bool :=
  argument.toList.head? = some '-' && argument.length > 1

/-- Give the options of a group of letters; the last may take a value, which `next` is. -/
def giveLetters (options : List OptionSpec) (next : Option String) (given : Given) :
    List Char → Except Refusal (Given × Bool)
  | [] => .ok (given, false)
  | c :: rest =>
    match options.find? (·.letter == some c) with
    | none => .error .usage
    | some spec =>
      match spec.value with
      | none => do
        if spec.long = "help" then throw (.help .program)
        if spec.long = "version" then throw .version
        let given ← give spec "" given
        giveLetters options next given rest
      | some _ =>
        match rest, next with
        | '=' :: value, _ => do return (← give spec (String.ofList value) given, false)
        | [], some value => do return (← give spec value given, true)
        | [], none => .error .usage
        | value, _ => do return (← give spec (String.ofList value) given, false)

/-- Read options up to the first word; the options, the word and what follows it. -/
def readOptions (options : List OptionSpec) (given : Given) :
    List String → Except Refusal (Given × Option (String × List String))
  | [] => .ok (given, none)
  | argument :: rest =>
    let next := rest.head?.filter fun value => !looksLikeOption value
    match argument.toList with
    | ['-', '-'] => if rest.isEmpty then .ok (given, none) else .error .usage
    | '-' :: '-' :: cs =>
      let name := cs.takeWhile (· != '=')
      match options.find? (·.long == String.ofList name) with
      | none => .error .usage
      | some spec =>
        match spec.value, cs.drop name.length, next with
        | none, [], _ => do
          if spec.long = "help" then throw (.help .program)
          if spec.long = "version" then throw .version
          let given ← give spec "" given
          readOptions options given rest
        | none, _ :: _, _ => .error .usage
        | some _, _ :: value, _ => do
          let given ← give spec (String.ofList value) given
          readOptions options given rest
        | some _, [], some value => do
          let given ← give spec value given
          readOptions options given rest.tail
        | some _, [], none => .error .usage
    | '-' :: c :: cs => do
      let (given, taken) ← giveLetters options next given (c :: cs)
      if taken then readOptions options given rest.tail else readOptions options given rest
    | _ => .ok (given, some (argument, rest))
termination_by arguments => arguments.length
decreasing_by all_goals (simp only [List.length_cons, List.length_tail]; omega)

/-- What a command line asks for. -/
structure Request where
  command : CommandSpec
  options : Given

/-- Say which command a question for help is about. -/
def aboutCommand (command : CommandSpec) {α : Type} : Except Refusal α → Except Refusal α
  | .error (.help _) => .error (.help (.command command))
  | result => result

/-- What the words behind `help` ask about. -/
def Topic.ofWords? : List String → Option Topic
  | [] => some .program
  | ["help"] => some .help
  | [name] => (commands.find? (·.name == name)).map .command
  | _ => none

/-- Read a command line. -/
def read (arguments : List String) : Except Refusal Request := do
  let (before, word) ← readOptions (globalOptions ++ [helpOption, versionOption]) [] arguments
  match word with
  | none => throw .usage
  | some ("help", words) => throw (((Topic.ofWords? words).map .help).getD .usage)
  | some (name, rest) =>
    match commands.find? (·.name == name) with
    | none => throw .usage
    | some command =>
      let (after, word) ← aboutCommand command
        (readOptions (command.options ++ globalOptions ++ [helpOption]) [] rest)
      if word.isSome then throw .usage
      if command.options.any fun o => o.required && (after.lookup o.long).isNone then throw .usage
      pure { command, options := after ++ before }

/-! ### Help -/

/-- An option as the help names it. -/
def OptionSpec.usage (o : OptionSpec) : String :=
  let letter := match o.letter with
    | some c => String.ofList ['-', c, ',', ' ']
    | none => "    "
  let value := if o.value.isSome then " <" ++ o.long.map Char.toUpper ++ ">" else ""
  letter ++ "--" ++ o.long ++ value

/-- A table of names and what they are about. -/
def table (entries : List (String × String)) : List String :=
  let width := (entries.map (·.1.length)).foldl max 0
  entries.map fun (name, about) =>
    "  " ++ name ++ String.ofList (List.replicate (width + 2 - name.length) ' ') ++ about

/-- The program as it calls itself. -/
def programName : String := "qe-cluster"

/-- The version of the program. -/
def programVersion : String := "0.1.0"

/-- The help on a command. -/
def CommandSpec.help (c : CommandSpec) : List String :=
  let required := (c.options.filter (·.required)).map fun o =>
    " --" ++ o.long ++ " <" ++ o.long.map Char.toUpper ++ ">"
  [c.about, "", "Usage: " ++ programName ++ " " ++ c.name ++ " [OPTIONS]" ++ String.join required,
    "", "Options:"]
    ++ table ((c.options ++ globalOptions ++ [helpOption]).map fun o => (o.usage, o.about))

/-- What the word `help` is about. -/
def helpAbout : String := "Print this message or the help of the given subcommand(s)"

/-- The help on all commands. -/
def generalHelp : List String :=
  ["Query Engine - distributed stage-job runtime", "",
    "Usage: " ++ programName ++ " [OPTIONS] <COMMAND>", "", "Commands:"]
    ++ table (commands.map (fun c => (c.name, c.about))
      ++ [("help", helpAbout)])
    ++ ["", "Options:"]
    ++ table ((globalOptions ++ [helpOption, versionOption]).map fun o => (o.usage, o.about))

/-- The help on a topic. -/
def Topic.text : Topic → List String
  | program => generalHelp
  | command c => c.help
  | help =>
    [helpAbout, "", "Usage: " ++ programName ++ " help [COMMAND]...", "", "Arguments:"]
      ++ table [("[COMMAND]...", "Print help for the subcommand(s)")]

end StagedQuery.CommandLine
