import Concatenative.FileTree
import Concatenative.Host
import Concatenative.Text.Line
import Concatenative.Text.Utf8

/-!
# Consoles

A console is a host with a keyboard, some files and some programs, all given beforehand. Files are
read as UTF-8 with any of the usual line ends; the output of a program is taken as it is, with bad
bytes replaced.
-/

namespace Concatenative

/-- A program. -/
inductive Executable where
  /-- A program that writes bytes. -/
  | writes (bytes : List UInt8)
  /-- Something that may not be run. -/
  | denied
  deriving DecidableEq

/-- The text that the bytes of a file encode, or the description of what is wrong with them. -/
def fileText (bytes : List UInt8) : Except String String :=
  (Text.Utf8.decode bytes).map fun text => String.ofList (Text.unifyNewlines text)

/-- The text of a file, given its bytes or why they cannot be had. -/
def openedText (path : String) : Except OpenError (List UInt8) → Except HostError String
  | .ok bytes => (fileText bytes).mapError .unavailable
  | .error .nullCharacter => .error .nullCharacter
  | .error error => .error (.unavailable (error.message path))

/-- A keyboard, files and programs. -/
structure Console where
  /-- The lines still to be typed; nothing stands for an interrupt in place of a line. -/
  typed : List (Option String) := []
  /-- The files by their paths. -/
  files : FileTree := []
  /-- The programs by their names. -/
  programs : Record Executable := []
  deriving DecidableEq

namespace Console

/-- The answer to a prompt. -/
def readLine (console : Console) : Reply × Console :=
  match console.typed with
  | [] => (.endOfInput, console)
  | some line :: rest => (.line line, { console with typed := rest })
  | none :: rest => (.interrupted, { console with typed := rest })

/-- The output of a program. -/
def runProgram (console : Console) (name : String) : Except HostError String :=
  match console.programs.get? name with
  | some (.writes bytes) => .ok (String.ofList (Text.Utf8.decodeLossy bytes))
  | some .denied => .error (.unavailable (OpenError.message name .denied))
  | none => .error (.unavailable (OpenError.message name .missing))

/-- A console as the host of a machine. What is shown can be read off the log of the machine. -/
def host : Host Console where
  echo _ console := console
  prompt _ console := console.readLine
  load path console := (openedText path (console.files.contents path), console)
  command name _ console := (console.runProgram name, console)

end Console
end Concatenative
