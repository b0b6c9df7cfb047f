import Concatenative.Arithmetic
import Concatenative.Error

/-!
# Operands

How a word is taken as an operand. The strict readings `asAtom`, `asInt`, … accept one kind only.
The lenient ones `intoInt`, `intoHex`, … convert between kinds where nothing is lost.
-/

namespace Concatenative
namespace Word

/-- The name of an atom. -/
def asAtom : Word → Except EvalError String
  | atom name => .ok name
  | word => .error (.wrongType word Kind.atom.name)

/-- The value of an integer. -/
def asInt : Word → Except EvalError Int
  | int value => .ok value
  | word => .error (.wrongType word Kind.int.name)

/-- The text of a string. -/
def asStr : Word → Except EvalError String
  | str text => .ok text
  | word => .error (.wrongType word Kind.str.name)

/-- The items of a list. -/
def asList : Word → Except EvalError (List Word)
  | list items => .ok items
  | word => .error (.wrongType word Kind.list.name)

/-- The entries of a dict. -/
def asDict : Word → Except EvalError (List (String × Word))
  | dict entries => .ok entries
  | word => .error (.wrongType word Kind.dict.name)

/-- A truth value is an integer, of which only zero is false. -/
def asBool (word : Word) : Except EvalError Bool :=
  return (← word.asInt) ≠ 0

/-- An integer, from an integer or from a number of base sixteen that is small enough. -/
def intoInt : Word → Except EvalError Int
  | int value => .ok value
  | hex value =>
    if value ≤ maxInt then .ok value else .error (.cannotConvert (hex value) Kind.int.name)
  | word => .error (.cannotConvert word Kind.int.name)

/-- An integer, from a number of base sixteen or from an integer that is not negative. -/
def intoHex : Word → Except EvalError Int
  | hex value => .ok value
  | int value => if 0 ≤ value then .ok value else .error (.cannotConvert (int value) Kind.hex.name)
  | word => .error (.cannotConvert word Kind.hex.name)

/-- The text of a string, the written form of any other word. -/
def intoString : Word → String
  | str text => text
  | word => word.display

/-- The items of a list, or a single item. -/
def intoList : Word → List Word
  | list items => items
  | word => [word]

/-- An operand of an arithmetic operation. -/
def operand : Word → Except EvalError Int
  | int value => .ok value
  | hex value => intoInt (hex value)
  | word => .error (.wrongType word Kind.int.name)

/-- The name of an entry of a dict, from a string or an atom. -/
def entryName : Word → Except EvalError String
  | str text => .ok text
  | atom name => .ok name
  | word => .error (.wrongType word Kind.str.name)

theorem operand_hex_of_le
    {value : Int}
    (small : value ≤ maxInt) :
    (hex value).operand = .ok value :=
  if_pos small

theorem eq_atom_of_asAtom
    {word : Word}
    {name : String}
    (read : word.asAtom = .ok name) :
    word = atom name := by
  cases word with
  | atom other =>
      cases read
      rfl
  | int | hex | str | list | dict => cases read

theorem eq_list_of_asList
    {word : Word}
    {items : List Word}
    (read : word.asList = .ok items) :
    word = list items := by
  cases word with
  | list others =>
      cases read
      rfl
  | atom | int | hex | str | dict => cases read

end Word
end Concatenative
