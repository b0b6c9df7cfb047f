/-!
# Hosts

A machine reaches the outside world through a host: it shows text, asks for lines, reads files and
runs other programs. A host answers from a state of its own, so that every answer may depend on all
calls before it.
-/

namespace Concatenative

/-- The answer to a prompt. -/
inductive Reply where
  /-- The line that was typed. -/
  | line (text : String)
  /-- There is no more input. -/
  | endOfInput
  /-- The user interrupted the prompt. -/
  | interrupted
  deriving DecidableEq

/-- Why a file or a program gives no text. -/
inductive HostError where
  /-- It is not to be had, for a cause that is described. -/
  | unavailable (cause : String)
  /-- Its name holds a null character, so that there is no such thing. -/
  | nullCharacter
  deriving DecidableEq

/-- The outside world of a machine, with states in `σ`. -/
structure Host (σ : Type) where
  /-- Show a text. -/
  echo : String → σ → σ
  /-- Show a text and ask for a line. -/
  prompt : String → σ → Reply × σ
  /-- The text of the file at a path. -/
  load : String → σ → Except HostError String × σ
  /-- The output of a program run with arguments. -/
  command : String → List String → σ → Except HostError String × σ

/-- What can be observed of a run: the calls to its host, and the lines of its trace. -/
inductive Event where
  /-- A text was shown. -/
  | echo (text : String)
  /-- A line was asked for. -/
  | prompt (text : String)
  /-- A file was asked for. -/
  | load (path : String)
  /-- A program was asked for. -/
  | command (name : String) (args : List String)
  /-- Tracing: an atom is about to be executed. -/
  | evaluating (name : String)
  /-- Tracing: a protected region was left because an atom failed. -/
  | recovered (name : String) (message : String)
  deriving DecidableEq

namespace Event

/-- The event belongs to the trace of a run. -/
def isTrace : Event → Bool
  | .evaluating _ => true
  | .recovered _ _ => true
  | _ => false

/-- What an event writes on a terminal: shown texts and traces on lines of their own, prompts
without a line end. -/
def written : Event → String
  | .echo text => text ++ "\n"
  | .prompt text => text
  | .load _ => ""
  | .command _ _ => ""
  | .evaluating name => "Evaluating: " ++ name ++ "\n"
  | .recovered name message => "Recovered from " ++ name ++ ": " ++ message ++ "\n"

end Event
end Concatenative
