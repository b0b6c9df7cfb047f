import Concatenative.Source.SyntaxError
import Concatenative.Word.Display

/-!
# Errors of a running program

An `EvalError` is a failure of the program, which a protected region recovers from. A `Fault` is
whatever ends a run: a failure of the program that nothing recovers from, a text that cannot be
read, or a failure of the host.
-/

namespace Concatenative

/-- A failure of a program. -/
inductive EvalError where
  /-- The data stack holds too few words. -/
  | stackUnderflow
  /-- A name means nothing. -/
  | unknown (name : String)
  /-- A division by zero. -/
  | divideByZero
  /-- A word has no counterpart of a kind that is named. -/
  | cannotConvert (word : Word) (kind : String)
  /-- A word is not of a kind that is named. -/
  | wrongType (word : Word) (kind : String)
  /-- An item was asked of a list that has none. -/
  | emptyList
  /-- A word that reads its operands from the code found something else there. -/
  | macroFailed
  /-- A text that the program itself tried to read is no program. -/
  | badParse (error : Source.SyntaxError)
  /-- A stack effect that is not allowed. -/
  | illegalEffect (input output : Int)
  /-- Any other failure. -/
  | other (message : String)
  deriving DecidableEq

/-- The description of a failure. -/
def EvalError.message : EvalError → String
  | .stackUnderflow => "stack underflow"
  | .unknown name => "can't understand " ++ name
  | .divideByZero => "divided by zero"
  | .cannotConvert word kind => "cannot convert " ++ word.display ++ " to " ++ kind
  | .wrongType word kind => "type of " ++ word.display ++ " is not " ++ kind
  | .emptyList => "empty list"
  | .macroFailed => "bad arguments for macro"
  | .badParse error => error.message
  | .illegalEffect input output =>
    "illegal stack effect (" ++ input.repr ++ " -- " ++ output.repr ++ ")"
  | .other message => message

/-- A stack on which there is nothing left to take back. -/
inductive UndoError where
  /-- The data stack. -/
  | noData
  /-- The code stack. -/
  | noCode
  deriving DecidableEq

/-- The description of a failed undoing. -/
def UndoError.message : UndoError → String
  | .noData => "pop from an empty deque"
  | .noCode => "pop from empty list"

/-- The least index that a stack is asked for. -/
def minIndex : Int := -9223372036854775808

/-- The description of an index that lies below the bottom of a stack. -/
def badIndexMessage (index : Int) : String :=
  if index < minIndex then "cannot fit 'int' into an index-sized integer"
  else "deque index out of range"

/-- Whatever ends a run before its end. -/
inductive Fault where
  /-- A failure of the program. -/
  | eval (error : EvalError)
  /-- A source text with a flaw. -/
  | flawed (error : Source.SyntaxError)
  /-- A source text with a decimal numeral of too many digits. -/
  | oversized (digits : Nat)
  /-- A failure of a file or of another program. -/
  | host (message : String)
  /-- The name of a file or of another program holds a null character. -/
  | nullCharacter
  /-- The user interrupted a prompt. -/
  | interrupted
  /-- An index that counts from the bottom of a stack lies below it. -/
  | badIndex (index : Int)
  /-- A change could not be taken back. -/
  | undo (error : UndoError)
  deriving DecidableEq

/-- The description of a numeral of too many digits. -/
def oversizedMessage (digits : Nat) : String :=
  "Exceeds the limit (4300 digits) for integer string conversion: value has " ++ digits.repr ++
    " digits; use sys.set_int_max_str_digits() to increase the limit"

/-- The description of a fault. -/
def Fault.message : Fault → String
  | .eval error => error.message
  | .flawed error => error.message
  | .oversized digits => oversizedMessage digits
  | .host message => message
  | .nullCharacter => "embedded null byte"
  | .interrupted => ""
  | .badIndex index => badIndexMessage index
  | .undo error => error.message

/-- A text that cannot be read ends the run that was to execute it. -/
def Fault.ofReadError : Source.ReadError → Fault
  | .flawed error => .flawed error
  | .oversized digits => .oversized digits

end Concatenative
