import Concatenative.Dictionary
import Concatenative.Host
import Concatenative.Stacks
import Concatenative.Word.Coerce

/-!
# Machines

A machine executes words from its code stack against its data stack and its dictionary. This module
has its state and the actions out of which built-in words are made. An action that fails keeps the
changes it made before it failed: taking them back is the business of the step it belongs to.
-/

namespace Concatenative

/-- What a protected region goes back to when it fails. -/
structure Snapshot where
  /-- The meanings of names when the region was entered. -/
  dictionary : Dictionary
  /-- The data stack when the region was entered, top first. -/
  data : List Word
  /-- The code that is to follow the failure, next word first. -/
  code : List Word
  deriving DecidableEq

/-- The state of a machine whose host has states in `σ`. -/
structure Machine (σ : Type) extends Stacks where
  /-- The meanings of names. -/
  dictionary : Dictionary
  /-- The snapshots of the protected regions that are open, innermost first. -/
  recovery : List Snapshot := []
  /-- Every atom that is executed leaves a line in the log. -/
  tracing : Bool := false
  /-- The state of the host. -/
  world : σ
  /-- What happened so far, latest first. -/
  log : List Event := []

/-- Something that a machine does. -/
abbrev Action (σ : Type) := EStateM Fault (Machine σ)

namespace Machine

variable {σ : Type} {α : Type}

/-- Apply a change to the stacks. -/
def mapStacks (change : Stacks → Stacks) (machine : Machine σ) : Machine σ :=
  { machine with toStacks := change machine.toStacks }

/-- Write an event into the log. -/
def note (event : Event) (machine : Machine σ) : Machine σ :=
  { machine with log := event :: machine.log }

/-- Write an event into the log if the machine is tracing. -/
def trace (event : Event) (machine : Machine σ) : Machine σ :=
  if machine.tracing then machine.note event else machine

/-- The machine with nothing left to execute and nothing to recover to. -/
def halted (machine : Machine σ) : Machine σ :=
  { machine with code := [], recovery := [] }

end Machine

namespace Action

variable {σ : Type} {α : Type}

/-- Fail because of the program. -/
def fail (error : EvalError) : Action σ α :=
  throw (.eval error)

/-- Go on with the value of an operand, or fail. -/
def ofExcept : Except EvalError α → Action σ α
  | .ok value => pure value
  | .error error => fail error

/-- A change of the stacks that gives a word, or fails with an error. -/
def ofStacks (error : EvalError) (change : Stacks → Option (Word × Stacks)) : Action σ Word :=
  fun machine =>
    match change machine.toStacks with
    | none => .error (.eval error) machine
    | some (word, state) => .ok word { machine with toStacks := state }

/-- Push a word on the data stack. -/
def push (word : Word) : Action σ Unit :=
  modify (Machine.mapStacks (Stacks.push word))

/-- Pop a word from the data stack. -/
def pop : Action σ Word :=
  ofStacks .stackUnderflow Stacks.pop?

/-- Fail because there is no word at an index. An index from the top asks for more words than there
are; one from the bottom is beyond what a program can recover from. -/
def failAt (index : Int) : Action σ α :=
  if 0 ≤ index then fail .stackUnderflow else throw (.badIndex index)

/-- The word at an index of the data stack. -/
def entry (index : Int) : Action σ Word := do
  match (← get).toStacks.entry? index with
  | some word => pure word
  | none => failAt index

/-- Remove the word at an index of the data stack. -/
def removeAt (index : Int) : Action σ Word := fun machine =>
  match machine.toStacks.removeAt? index with
  | some (word, state) => .ok word { machine with toStacks := state }
  | none => failAt index machine

/-- Empty the data stack. -/
def clearData : Action σ Unit :=
  modify (Machine.mapStacks Stacks.clearData)

/-- Take the word that would be executed next. -/
def takeCode : Action σ Word :=
  ofStacks .macroFailed Stacks.take?

/-- Put a word on the code stack. -/
def putCode (word : Word) : Action σ Unit :=
  modify (Machine.mapStacks (Stacks.put word))

/-- Load words onto the code stack. -/
def loadCode (words : List Word) : Action σ Unit :=
  modify (Machine.mapStacks (Stacks.load words))

/-- Leave nothing to execute and nothing to recover to. -/
def halt : Action σ Unit :=
  modify Machine.halted

/-- Take the changes back that the journal holds. -/
def rollback : Action σ Unit := fun machine =>
  match machine.toStacks.rollback with
  | (state, none) => .ok () { machine with toStacks := state }
  | (state, some error) => .error (.undo error) { machine with toStacks := state }

/-- What a name means. -/
def lookup (name : String) : Action σ Binding := do
  match (← get).dictionary.get? name with
  | some binding => pure binding
  | none => fail (.unknown name)

/-- Show a text. -/
def echo (host : Host σ) (text : String) : Action σ Unit :=
  modify fun machine =>
    { machine with log := .echo text :: machine.log, world := host.echo text machine.world }

/-- Show a text and ask for a line. -/
def prompt (host : Host σ) (text : String) : Action σ Reply := fun machine =>
  let (reply, world) := host.prompt text machine.world
  .ok reply { machine with log := .prompt text :: machine.log, world }

/-- Go on with the text that a host gives, or fail with what was tried. -/
def ofHost (attempt : String) : Except HostError String → Action σ String
  | .ok text => pure text
  | .error (.unavailable cause) => throw (.host (attempt ++ ": " ++ cause))
  | .error .nullCharacter => throw .nullCharacter

/-- Ask for the text of a file. -/
def load (host : Host σ) (path : String) : Action σ String := fun machine =>
  let (answer, world) := host.load path machine.world
  ofHost ("cannot load " ++ path) answer
    { machine with log := .load path :: machine.log, world }

/-- Ask for the output of a program. -/
def command
    (host : Host σ)
    (name : String)
    (args : List String) :
    Action σ String := fun machine =>
  let (answer, world) := host.command name args machine.world
  ofHost ("cannot run " ++ name) answer
    { machine with log := .command name args :: machine.log, world }

end Action
end Concatenative
