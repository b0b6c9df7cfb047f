import Concatenative.Effect

/-!
# Built-in words

The words that the machine executes itself, with the names under which they are bound and their
stack effects. What they do is the business of the machine.
-/

namespace Concatenative

/-- The built-in words. -/
inductive Builtin where
  /-- The number of items of a list. -/
  | length
  /-- The concatenation of two lists. -/
  | append
  /-- A list with a value more at its back. -/
  | pushBack
  /-- A list without its last item, and that item. -/
  | popBack
  /-- A list without its first item, and that item. -/
  | popFront
  /-- A list with a value more at its front. -/
  | pushFront
  /-- The items of a list. -/
  | explode
  /-- The data stack as a list. -/
  | capture
  /-- The written forms of items, with a separator between them. -/
  | flatten
  /-- The concatenation of two texts. -/
  | concat
  /-- The lines of a text. -/
  | lines
  /-- The words that a text denotes. -/
  | parse
  /-- Show a text. -/
  | echo
  /-- Ask for a line. -/
  | prompt
  /-- The output of another program. -/
  | command
  /-- The text of a file. -/
  | load
  /-- A copy of an entry of the data stack. -/
  | pick
  /-- Move an entry of the data stack to the top. -/
  | roll
  /-- Remove the top of the data stack. -/
  | drop
  /-- Empty the data stack. -/
  | clear
  /-- Conversion to base sixteen. -/
  | hex
  /-- Conversion to an integer. -/
  | int
  /-- Sum. -/
  | add
  /-- Difference. -/
  | sub
  /-- Product. -/
  | mul
  /-- Quotient. -/
  | div
  /-- Change of sign. -/
  | neg
  /-- Agreement of two words. -/
  | equal
  /-- Whether a number is less than another. -/
  | less
  /-- Whether a number is greater than another. -/
  | greater
  /-- A dict from written entries. -/
  | dict
  /-- The value of an entry. -/
  | get
  /-- A dict with an entry set. -/
  | put
  /-- The names of a dict. -/
  | keys
  /-- End the run. -/
  | bye
  /-- Bind a name. -/
  | assign
  /-- Run a list. -/
  | eval
  /-- Fill a template. -/
  | expand
  /-- Run one of two lists. -/
  | branch
  /-- Run a list and recover from its failure. -/
  | protect
  /-- Leave a protected region. -/
  | unprotect
  /-- Take the next word of the code as data. -/
  | quote
  /-- Rearrange an operation written between its operands. -/
  | arrange
  /-- Show the code that is left. -/
  | debug
  /-- Show what a name is bound to. -/
  | inspect
  deriving DecidableEq

namespace Builtin

/-- The built-in words that work on data, grouped by what they work on: lists, strings, the host,
the data stack, numbers, dicts. -/
def dataWords : List Builtin :=
  [.length, .append, .pushBack, .popBack, .popFront, .pushFront, .explode, .capture,
    .flatten, .concat, .lines, .parse,
    .echo, .prompt, .command, .load,
    .pick, .roll, .drop, .clear,
    .hex, .int, .add, .sub, .mul, .div, .neg, .equal, .less, .greater,
    .dict, .get, .put, .keys]

/-- The built-in words that work on the code stack, the dictionary or the recovery stack. -/
def controlWords : List Builtin :=
  [.bye, .assign, .eval, .expand, .branch, .protect, .unprotect, .quote, .arrange, .debug, .inspect]

/-- The name under which a built-in word is bound. -/
def name : Builtin → String
  | .length => "len"
  | .append => "append"
  | .pushBack => "push"
  | .popBack => "pop"
  | .popFront => "shift"
  | .pushFront => "unshift"
  | .explode => "explode"
  | .capture => "capture"
  | .flatten => "flatten"
  | .concat => "strcat"
  | .lines => "lines"
  | .parse => "parse"
  | .echo => "echo"
  | .prompt => "prompt"
  | .command => "command"
  | .load => "load"
  | .pick => "pick"
  | .roll => "roll"
  | .drop => "drop"
  | .clear => "clear"
  | .hex => "hex"
  | .int => "int"
  | .add => "+"
  | .sub => "-"
  | .mul => "*"
  | .div => "/"
  | .neg => "~"
  | .equal => "=="
  | .less => "<"
  | .greater => ">"
  | .dict => "dict"
  | .get => "get"
  | .put => "put"
  | .keys => "keys"
  | .bye => "bye"
  | .assign => "="
  | .eval => "eval"
  | .expand => "expand"
  | .branch => "if"
  | .protect => "try"
  | .unprotect => "popeh"
  | .quote => "quote"
  | .arrange => "))"
  | .debug => "debug"
  | .inspect => "inspect"

/-- The stack effect of a built-in word. -/
def effect : Builtin → Effect
  | .length => ⟨1, 1, true⟩
  | .append => ⟨2, 1, true⟩
  | .pushBack => ⟨2, 1, true⟩
  | .popBack => ⟨1, 2, true⟩
  | .popFront => ⟨1, 2, true⟩
  | .pushFront => ⟨2, 1, true⟩
  | .explode => .inexact 1
  | .capture => .inexact 0
  | .flatten => ⟨2, 1, true⟩
  | .concat => ⟨2, 1, true⟩
  | .lines => ⟨1, 1, true⟩
  | .parse => ⟨1, 1, true⟩
  | .echo => ⟨1, 0, true⟩
  | .prompt => ⟨1, 1, true⟩
  | .command => ⟨2, 1, true⟩
  | .load => ⟨1, 1, true⟩
  | .pick => ⟨2, 2, true⟩
  | .roll => ⟨2, 1, true⟩
  | .drop => ⟨1, 0, true⟩
  | .clear => .inexact 0
  | .hex => ⟨1, 1, true⟩
  | .int => ⟨1, 1, true⟩
  | .add => ⟨2, 1, true⟩
  | .sub => ⟨2, 1, true⟩
  | .mul => ⟨2, 1, true⟩
  | .div => ⟨2, 1, true⟩
  | .neg => ⟨1, 1, true⟩
  | .equal => ⟨2, 1, true⟩
  | .less => ⟨2, 1, true⟩
  | .greater => ⟨2, 1, true⟩
  | .dict => ⟨1, 1, true⟩
  | .get => ⟨2, 1, true⟩
  | .put => ⟨3, 1, true⟩
  | .keys => ⟨1, 1, true⟩
  | .bye => .inexact 0
  | .assign => .inexact 1
  | .eval => .inexact 1
  | .expand => .inexact 2
  | .branch => .inexact 3
  | .protect => .inexact 2
  | .unprotect => .neutral
  | .quote => .inexact 0
  | .arrange => .inexact 0
  | .debug => .neutral
  | .inspect => ⟨1, 0, true⟩

end Builtin
end Concatenative
