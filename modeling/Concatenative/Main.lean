import Concatenative.Session

/-!
# The program

The program on a terminal: it reads the keyboard and files, and writes what a session writes. The
machine takes its steps as everywhere else; only the answers to its questions come from outside. It
starts no other programs, so that a request for one is answered as for a program that is missing.
-/

namespace Concatenative
namespace Program

/-- Write a text at once. -/
def write (text : String) : IO Unit := do
  let output ← IO.getStdout
  output.putStr text
  output.flush

/-- The number of an error of the operating system. -/
def errorNumber : IO.Error → UInt32
  | .noFileOrDirectory _ number _ => number
  | .inappropriateType _ number _ => number
  | .invalidArgument _ number _ => number
  | .permissionDenied _ number _ => number
  | _ => 0

/-- Why the operating system does not open a file, by the number of its error. -/
def openError (number : UInt32) : OpenError :=
  if number = 2 then .missing
  else if number = 20 then .notDirectory
  else if number = 21 then .directory
  else if number = 36 then .tooLong
  else .denied

/-- The bytes of the file at a path. -/
def contents (path : String) : IO (Except OpenError (List UInt8)) := do
  if path.toList.contains '\x00' then return .error .nullCharacter
  try
    return .ok (← IO.FS.readBinFile path).toList
  catch error =>
    return .error (openError (errorNumber error))

/-- A line from the keyboard. -/
def readLine : IO Reply := do
  let line ← (← IO.getStdin).getLine
  if line.isEmpty then return .endOfInput
  let chars := line.toList
  return .line (String.ofList (if chars.getLast? = some '\n' then chars.dropLast else chars))

/-- The answer to a question of the machine. -/
def answerTo : Event → IO Answer
  | .prompt _ => do return { reply := ← readLine }
  | .load path => do return { content := openedText path (← contents path) }
  | .command name _ =>
    return { content := .error (.unavailable (OpenError.message name .missing)) }
  | _ => return {}

/-- Take one step. -/
def step (machine : Machine Answer) : IO (Progress Answer) := do
  match machine.question? with
  | (events, none) =>
    write (Session.transcript events.reverse)
    return machine.stepWith {}
  | (events, some question) =>
    write (Session.transcript (question :: events.reverse))
    let progress := machine.stepWith (← answerTo question)
    write (Session.transcript ((Machine.eventsOf progress).drop (events.length + 1)).reverse)
    return progress

/-- Run a machine to its end. -/
partial def run (machine : Machine Answer) : IO (Outcome Answer) := do
  match ← step machine with
  | .running next => run next
  | .ended outcome => return outcome

/-- End the program. -/
def finish (ending : Session.Ending) : IO UInt32 := do
  match ending with
  | .exit code => return code.toUInt32
  | .fault fault => do
    (← IO.getStderr).putStrLn fault.message
    return 1
  | .unopened path error => do
    (← IO.getStderr).putStrLn (error.message path)
    return 1

/-- Carry out launches in turn, until one ends the program. -/
def carryOut (machine : Machine Answer) : List Session.Launch → IO UInt32
  | [] => return 0
  | launch :: rest => do
    write launch.preface
    let outcome ← run (machine.mapStacks (Stacks.load launch.words))
    let (conclusion, ending?) := Session.conclude launch outcome
    write conclusion
    match ending? with
    | some ending => finish ending
    | none => carryOut (Machine.ofOutcome outcome) rest

/-- The path that a request names. -/
def scriptOf : CommandLine.Request → Option String
  | .run options => options.script
  | _ => none

/-- Call the program with arguments. -/
def call (arguments : List String) : IO UInt32 := do
  let request := CommandLine.read arguments
  let script := (scriptOf request).getD ""
  let found ← contents (Path.normal script)
  let opened ← contents script
  match Session.plan (fun path => if path = script then opened else found) false request with
  | .answer report => do
    write report.output
    (← IO.getStderr).putStr report.complaint
    finish report.ending
  | .launch tracing launches => do
    let machine := Library.fresh Answer.host tracing {}
    write (Session.transcript machine.log)
    carryOut machine launches

end Program
end Concatenative

/-- The entry point of the program. -/
def main (arguments : List String) : IO UInt32 :=
  Concatenative.Program.call arguments
