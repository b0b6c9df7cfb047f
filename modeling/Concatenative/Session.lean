import Concatenative.CommandLine
import Concatenative.Console
import Concatenative.Library
import Concatenative.Machine.Question

/-!
# Sessions

What a call of the program does. A command line that asks for a text, and a script that cannot be
found, are answered at once. Otherwise one machine is launched, first on the script and then
interactively, as the command line says. Each launch is a run of words of the library, and what it
wrote is the log of the machine.
-/

namespace Concatenative
namespace Session

/-- How the program ends. -/
inductive Ending where
  /-- With an exit code. -/
  | exit (code : Nat)
  /-- Abruptly, on a fault that nothing reports. -/
  | fault (fault : Fault)
  /-- Abruptly, because what stands at a path could not be opened. -/
  | unopened (path : String) (error : OpenError)
  deriving DecidableEq

/-- What the program wrote, and how it ended. -/
structure Report where
  /-- How it ended. -/
  ending : Ending
  /-- What it wrote. -/
  output : String := ""
  /-- What it wrote about misuse. -/
  complaint : String := ""
  deriving DecidableEq

/-- One run of the machine. -/
structure Launch where
  /-- What is written first. -/
  preface : String := ""
  /-- The words to run. -/
  words : List Word
  /-- What the run is called in reports. -/
  label : String
  /-- An interrupt ends the run as if it were done. -/
  interruptible : Bool := false

/-- What the program is going to do. -/
inductive Plan where
  /-- Answer at once. -/
  | answer (report : Report)
  /-- Launch a machine. -/
  | launch (tracing : Bool) (launches : List Launch)

/-- A line that rules off a report. -/
def rule (width : Nat) : String :=
  String.ofList (List.replicate width '=')

/-- The lines of a text, each with its end. -/
def written (lines : List String) : String :=
  String.join (lines.map fun line => line ++ "\n")

/-- The lines that show the words of a script. -/
def wordLines (words : List Word) : List String :=
  ("Parsed " ++ words.length.repr ++ " words, in execution order last to first:") ::
    rule 50 :: words.map (Word.pretty 0)

/-- A path in plain quotes, as reports name a script. -/
def scriptLabel (path : String) : String :=
  "'" ++ path ++ "'"

/-- Failure with a text. -/
def failure (lines : List String) : Report :=
  { ending := .exit 1, output := written lines }

/-- Show the words of a text. -/
def showWords (path : String) (text : String) : Report :=
  match Source.parse text with
  | .ok words => { ending := .exit 0, output := written (wordLines words) }
  | .error (.flawed error) =>
    failure ["Parse error in " ++ scriptLabel path ++ ":", error.describe]
  | .error (.oversized digits) => { ending := .fault (.oversized digits) }

/-- Show the words of what stands at a path, given its bytes or why they cannot be had. -/
def showFile (path : String) : Except OpenError (List UInt8) → Report
  | .error .denied => failure ["Error: Permission denied reading " ++ scriptLabel path]
  | .error error => { ending := .unopened path error }
  | .ok bytes =>
    match fileText bytes with
    | .error message =>
      failure
        ["Error: Cannot decode file " ++ scriptLabel path ++ ": " ++ message,
          "  Hint: Make sure the file is a text file with UTF-8 encoding"]
    | .ok text => showWords path text

/-- The run of a script. -/
def scriptLaunch (path : String) : Launch where
  words := [.atom "interpret", .str path]
  label := scriptLabel path

/-- The lines that greet the user. -/
def banner (lineEditing tracing : Bool) : List String :=
  [CommandLine.versionText ++ " - Interactive Mode",
    "Type 'exit' to quit, 'stack' to show the data stack"] ++
  (if lineEditing then ["Readline enabled: Use ↑/↓ for history, Tab for completion"] else []) ++
  (if tracing then ["Debug mode enabled"] else []) ++
  [""]

/-- The run of an interactive session. -/
def interactiveLaunch (lineEditing tracing : Bool) : Launch where
  preface := written (banner lineEditing tracing)
  words := [.atom "repl"]
  label := "interactive session"
  interruptible := true

/-- The runs that a command line asks for. -/
def launches (lineEditing : Bool) (options : CommandLine.Options) : List Launch :=
  let interactive := interactiveLaunch lineEditing options.debug
  match options.script with
  | none => [interactive]
  | some path =>
    scriptLaunch path :: if options.interactive then [interactive] else []

/-- Whether something stands at a path, told from an attempt to open it. A path that is too long
tells nothing. -/
def presence : Except OpenError (List UInt8) → Except OpenError Bool
  | .error .tooLong => .error .tooLong
  | .error error => .ok !error.meansAbsent
  | .ok _ => .ok true

/-- What the program is going to do, given the bytes at each path. Whether there is a script is
asked of the normal form of its path, and what it is of the path as it stands. -/
def plan
    (contents : String → Except OpenError (List UInt8))
    (lineEditing : Bool)
    (request : CommandLine.Request) :
    Plan :=
  match request with
  | .help => .answer { ending := .exit 0, output := CommandLine.helpText }
  | .version => .answer { ending := .exit 0, output := CommandLine.versionText ++ "\n" }
  | .misuse misuse => .answer { ending := .exit 2, complaint := CommandLine.misuseText misuse }
  | .run options =>
    match options.script with
    | none => .launch options.debug (launches lineEditing options)
    | some path =>
      match presence (contents (Path.normal path)) with
      | .error error => .answer { ending := .unopened (Path.normal path) error }
      | .ok false =>
        .answer (failure ["Error: Script file " ++ scriptLabel path ++ " does not exist"])
      | .ok true =>
        if options.parse then .answer (showFile path (contents path))
        else .launch options.debug (launches lineEditing options)

/-- The lines that report a failure of a program: what happened, and the word it happened at. -/
def failureLines (label : String) (error : EvalError) (code : List Word) : List String :=
  match error with
  | .badParse error => ["Parse error in " ++ label ++ ":", error.describe]
  | error =>
    ["", rule 70, "Runtime Error in " ++ label, rule 70, "", "Error: " ++ error.message] ++
    (match code with
      | [] => []
      | word :: _ => ["", "At: " ++ word.display]) ++
    ["", rule 70, ""]

variable {σ : Type}

/-- What is written at the end of a run, and the way the program ends if it ends with it. -/
def conclude (launch : Launch) : Outcome σ → String × Option Ending
  | .ok () _ => ("", none)
  | .error (.eval error) machine =>
    (written (failureLines launch.label error machine.code), some (.exit 1))
  | .error (.host message) _ => (written ["Error: " ++ message], some (.exit 1))
  | .error .interrupted _ =>
    if launch.interruptible then (written ["", "Goodbye!"], none)
    else ("", some (.fault .interrupted))
  | .error fault _ => ("", some (.fault fault))

/-- What a log writes. -/
def transcript (log : List Event) : String :=
  String.join (log.reverse.map Event.written)

/-- Carry out launches in turn, until one ends the program, with the machine as it is and the text
written so far. -/
def carryOut (host : Host σ) (steps : Nat) (machine : Machine σ) (output : String) :
    List Launch → Option (Report × Machine σ)
  | [] => some ({ ending := .exit 0, output }, machine)
  | launch :: rest => do
    let outcome ← { machine with log := [] }.runWords host steps launch.words
    let after := Machine.ofOutcome outcome
    let (conclusion, ending?) := conclude launch outcome
    let output := output ++ launch.preface ++ transcript after.log ++ conclusion
    match ending? with
    | some ending => some ({ ending, output }, after)
    | none => carryOut host steps after output rest

/-- Call the program on a host in a state, given the bytes at each path. The result is its report
and the state in which it leaves the host; there is none if a run takes more than `steps` steps. -/
def callOn
    (host : Host σ)
    (contents : String → Except OpenError (List UInt8))
    (steps : Nat)
    (lineEditing : Bool)
    (arguments : List String)
    (world : σ) :
    Option (Report × σ) :=
  match plan contents lineEditing (CommandLine.read arguments) with
  | .answer report => some (report, world)
  | .launch tracing launches => do
    let machine := Library.fresh host tracing world
    let (report, after) ← carryOut host steps machine (transcript machine.log) launches
    return (report, after.world)

/-- Call the program on a console. -/
def call
    (steps : Nat)
    (lineEditing : Bool)
    (arguments : List String)
    (console : Console) :
    Option (Report × Console) :=
  callOn Console.host console.files.contents steps lineEditing arguments console

end Session
end Concatenative
