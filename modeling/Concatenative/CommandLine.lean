import Concatenative.Text.Digit
import Concatenative.Text.Quoted

/-!
# The command line

Arguments are options or positional arguments. Options may stand anywhere before a double dash, long
ones may be cut short as long as it stays clear which one is meant, and short ones may share a dash.
All arguments are classified before the first of them takes effect; then they take effect from left
to right, so that the first request for help or for the version wins over what stands after it.
-/

namespace Concatenative
namespace CommandLine

/-- The options. None of them takes an argument. -/
inductive Flag where
  /-- Show the help text. -/
  | help
  /-- Start an interactive session. -/
  | interactive
  /-- Show the words of the script. -/
  | parse
  /-- Trace the evaluation. -/
  | debug
  /-- Show the version. -/
  | version
  deriving DecidableEq

/-- All options. -/
def Flag.all : List Flag :=
  [.help, .interactive, .parse, .debug, .version]

/-- The spellings of an option. -/
def Flag.spellings : Flag → List String
  | .help => ["-h", "--help"]
  | .interactive => ["-i", "--interactive"]
  | .parse => ["--parse"]
  | .debug => ["--debug"]
  | .version => ["--version"]

/-- The name of an option in messages. -/
def Flag.name (flag : Flag) : String :=
  "/".intercalate flag.spellings

/-- All spellings with their options. -/
def spellings : List (String × Flag) :=
  Flag.all.flatMap fun flag => flag.spellings.map fun spelling => (spelling, flag)

/-- How the command line was misused. -/
inductive Misuse where
  /-- A shortened option could be several. -/
  | ambiguous (argument : String) (candidates : List String)
  /-- An option was given an argument. -/
  | ignoredArgument (flag : Flag) (argument : String)
  /-- Arguments that mean nothing. -/
  | unrecognized (arguments : List String)
  /-- The words of a script were asked for without a script. -/
  | scriptNeeded
  deriving DecidableEq

/-- The description of a misuse. -/
def Misuse.message : Misuse → String
  | .ambiguous argument candidates =>
    "ambiguous option: " ++ argument ++ " could match " ++ ", ".intercalate candidates
  | .ignoredArgument flag argument =>
    "argument " ++ flag.name ++ ": ignored explicit argument " ++ Text.quoted argument
  | .unrecognized arguments => "unrecognized arguments: " ++ " ".intercalate arguments
  | .scriptNeeded => "--parse needs a script file"

/-- What an argument is. -/
inductive Item where
  /-- A positional argument. -/
  | positional (text : String)
  /-- The double dash that ends the options. -/
  | dashes
  /-- An option with one dash, and what is written behind its letter. -/
  | short (flag : Flag) (attached : Option String)
  /-- An option with two dashes, and what is written behind an equality sign. -/
  | long (flag : Flag) (attached : Option String)
  /-- Something that looks like an option and is none. -/
  | unknown (text : String)
  deriving DecidableEq

/-- An option with a given spelling and attachment. -/
def Item.option (spelling : List Char) (flag : Flag) (attached : Option (List Char)) : Item :=
  let attached := attached.map String.ofList
  if "--".toList.isPrefixOf spelling then .long flag attached else .short flag attached

/-- The option with a given spelling. -/
def flagOf? (spelling : List Char) : Option Flag :=
  spellings.lookup (String.ofList spelling)

/-- What stands before and after the first equality sign. -/
def atEquals (argument : List Char) : List Char × Option (List Char) :=
  let before := argument.takeWhile fun c => c ≠ '='
  match argument.drop before.length with
  | [] => (before, none)
  | _ :: after => (before, some after)

/-- Text of digits, with at least one. -/
def isNumber (text : List Char) : Bool :=
  !text.isEmpty && text.all Text.isDigit

/-- The argument is a dash and a decimal number, which may be followed by a newline. -/
def isNegativeNumber : List Char → Bool
  | '-' :: rest =>
    let rest := if rest.getLast? = some '\n' then rest.dropLast else rest
    let whole := rest.takeWhile fun c => c ≠ '.'
    match rest.drop whole.length with
    | [] => isNumber whole
    | _ :: fraction => whole.all Text.isDigit && isNumber fraction
  | _ => false

/-- An argument that begins with a dash and is no spelling of an option. -/
def classifyOther (argument : List Char) : Item :=
  if isNegativeNumber argument || argument.contains ' ' then .positional (String.ofList argument)
  else .unknown (String.ofList argument)

/-- A long option that may be cut short. -/
def classifyLong (argument : List Char) : Except Misuse Item :=
  let (beginning, attached) := atEquals argument
  match spellings.filter fun (spelling, _) => beginning.isPrefixOf spelling.toList with
  | [] => .ok (classifyOther argument)
  | [(spelling, flag)] => .ok (.option spelling.toList flag attached)
  | candidates => .error (.ambiguous (String.ofList argument) (candidates.map Prod.fst))

/-- A short option with something behind its letter. -/
def classifyShort (argument : List Char) : Item :=
  match flagOf? (argument.take 2) with
  | some flag => .option (argument.take 2) flag (some (argument.drop 2))
  | none => classifyOther argument

/-- What an argument before the double dash is. -/
def classify (argument : List Char) : Except Misuse Item :=
  match argument with
  | '-' :: rest =>
    match flagOf? argument with
    | some flag => .ok (.option argument flag none)
    | none =>
      if rest.isEmpty then .ok (.positional (String.ofList argument))
      else
        match atEquals argument with
        | (spelling, some attached) =>
          match flagOf? spelling with
          | some flag => .ok (.option spelling flag (some attached))
          | none => if rest.head? = some '-' then classifyLong argument
            else .ok (classifyShort argument)
        | (_, none) => if rest.head? = some '-' then classifyLong argument
          else .ok (classifyShort argument)
  | _ => .ok (.positional (String.ofList argument))

/-- What the arguments are. -/
def classifyAll : List String → Except Misuse (List Item)
  | [] => .ok []
  | argument :: rest =>
    if argument = "--" then .ok (.dashes :: rest.map .positional)
    else do
      let item ← classify argument.toList
      return item :: (← classifyAll rest)

/-- The options that share a dash, given the first of them and what is written behind it. -/
def cluster (flag : Flag) : List Char → Except Misuse (List Flag)
  | [] => .ok [flag]
  | letter :: rest =>
    match flagOf? ['-', letter] with
    | none => .error (.ignoredArgument flag (String.ofList (letter :: rest)))
    | some next => (cluster next rest).map (flag :: ·)

/-- The options that an option argument stands for. -/
def flagsOf : Item → Except Misuse (List Flag)
  | .short flag none => .ok [flag]
  | .short flag (some "") => .error (.ignoredArgument flag "")
  | .short flag (some attached) => cluster flag attached.toList
  | .long flag none => .ok [flag]
  | .long flag (some attached) => .error (.ignoredArgument flag attached)
  | _ => .ok []

/-- What a command line sets. -/
structure Options where
  /-- The script to run. -/
  script : Option String := none
  /-- Start an interactive session. -/
  interactive : Bool := false
  /-- Show the words of the script. -/
  parse : Bool := false
  /-- Trace the evaluation. -/
  debug : Bool := false
  deriving DecidableEq

/-- What a command line asks for. -/
inductive Request where
  /-- The help text. -/
  | help
  /-- The version. -/
  | version
  /-- Nothing that makes sense. -/
  | misuse (misuse : Misuse)
  /-- A run. -/
  | run (options : Options)
  deriving DecidableEq

/-- The arguments read so far. -/
structure Reading where
  /-- What they set. -/
  options : Options := {}
  /-- The place of the script is filled, if only by a double dash. -/
  scriptRead : Bool := false
  /-- The arguments that mean nothing, latest first. -/
  extras : List String := []

namespace Reading

/-- Fill the place of the script. -/
def withScript (script : Option String) (reading : Reading) : Reading :=
  { reading with options := { reading.options with script }, scriptRead := true }

/-- Put an argument aside. -/
def withExtra (argument : String) (reading : Reading) : Reading :=
  { reading with extras := argument :: reading.extras }

/-- Let options take effect in turn. -/
def withFlags (reading : Reading) : List Flag → Except Request Reading
  | [] => .ok reading
  | .help :: _ => .error .help
  | .version :: _ => .error .version
  | .interactive :: rest =>
    { reading with options := { reading.options with interactive := true } }.withFlags rest
  | .parse :: rest =>
    { reading with options := { reading.options with parse := true } }.withFlags rest
  | .debug :: rest =>
    { reading with options := { reading.options with debug := true } }.withFlags rest

/-- Let the options of an argument take effect. -/
def withOption (reading : Reading) (item : Item) : Except Request Reading :=
  match flagsOf item with
  | .error misuse => .error (.misuse misuse)
  | .ok flags => reading.withFlags flags

/-- Let the arguments take effect in turn. The first positional argument is the script; a double
dash beside it is dropped with it. -/
def withItems (reading : Reading) : List Item → Except Request Reading
  | [] => .ok reading
  | .positional text :: .dashes :: rest =>
    if reading.scriptRead then (reading.withExtra text |>.withExtra "--").withItems rest
    else (reading.withScript (some text)).withItems rest
  | .positional text :: rest =>
    if reading.scriptRead then (reading.withExtra text).withItems rest
    else (reading.withScript (some text)).withItems rest
  | .dashes :: .positional text :: rest =>
    if reading.scriptRead then (reading.withExtra "--" |>.withExtra text).withItems rest
    else (reading.withScript (some text)).withItems rest
  | .dashes :: rest =>
    if reading.scriptRead then (reading.withExtra "--").withItems rest
    else (reading.withScript none).withItems rest
  | .unknown text :: rest => (reading.withExtra text).withItems rest
  | .short flag attached :: rest => do
    (← reading.withOption (.short flag attached)).withItems rest
  | .long flag attached :: rest => do
    (← reading.withOption (.long flag attached)).withItems rest

/-- What the arguments ask for once all of them are read. An empty script counts as none. -/
def request (reading : Reading) : Request :=
  let script := reading.options.script.filter fun path => path ≠ ""
  if !reading.extras.isEmpty then .misuse (.unrecognized reading.extras.reverse)
  else if reading.options.parse && script.isNone then .misuse .scriptNeeded
  else .run { reading.options with script }

end Reading

/-- What a command line asks for. -/
def read (arguments : List String) : Request :=
  match classifyAll arguments with
  | .error misuse => .misuse misuse
  | .ok items =>
    match Reading.withItems {} items with
    | .error request => request
    | .ok reading => reading.request

/-! ## Texts -/

/-- The version of the program. -/
def versionText : String :=
  "backforth 0.1.0"

/-- The short description of the command line. -/
def usageText : String :=
  "usage: backforth [-h] [-i] [--parse] [--debug] [--version] [script]\n"

/-- The lines of the long description of the command line, after the short one. -/
def helpLines : List String :=
  ["",
    "backforth - a concatenative stack language",
    "",
    "positional arguments:",
    "  script             backforth script file to execute",
    "",
    "options:",
    "  -h, --help         show this help message and exit",
    "  -i, --interactive  Start interactive mode (after running the script, if any)",
    "  --parse            Parse file and show its words (for debugging)",
    "  --debug            Trace evaluation",
    "  --version          show program's version number and exit",
    "",
    "Examples:",
    "  backforth                        # Interactive mode",
    "  backforth script.bf              # Run a backforth script",
    "  backforth -i script.bf           # Run a script, then stay interactive",
    "  backforth --parse script.bf      # Parse and show the words",
    "  backforth --debug script.bf      # Trace every word evaluated",
    "        "]

/-- The long description of the command line. -/
def helpText : String :=
  usageText ++ String.join (helpLines.map fun line => line ++ "\n")

/-- What is written when the command line is misused. -/
def misuseText (misuse : Misuse) : String :=
  usageText ++ "backforth: error: " ++ misuse.message ++ "\n"

end CommandLine
end Concatenative
