import Concatenative.Text.Numeral
import Concatenative.Word.Basic

/-!
# The written form of words

`display` writes a word on one line as source text. `pretty` gives each nested list its own lines
and writes the words between two nested lists on one line.
-/

namespace Concatenative
namespace Word

/-- Written words between braces; a pair of braces with nothing to hold is closed up. -/
def braced (separator : String) (written : List String) : String :=
  if written.isEmpty then "\x7b\x7d"
  else "\x7b " ++ separator.intercalate written ++ " \x7d"

mutual

/-- The written form of a word. -/
def display : Word → String
  | atom name => name
  | int value => value.repr
  | hex value => "#" ++ Text.hexDigits value
  | str text => "\"" ++ text ++ "\""
  | list items => braced " " (displayEach items)
  | dict entries => "dict " ++ braced " ; " (displayEntries entries)
termination_by structural word => word

/-- The written forms of the items of a list. -/
def displayEach : List Word → List String
  | [] => []
  | item :: rest => display item :: displayEach rest
termination_by structural items => items

/-- The written forms of the entries of a dict. -/
def displayEntries : List (String × Word) → List String
  | [] => []
  | entry :: rest => displayEntry entry :: displayEntries rest
termination_by structural entries => entries

/-- The written form of an entry of a dict. -/
def displayEntry : String × Word → String
  | (name, value) => name ++ " = " ++ display value
termination_by structural entry => entry

end

theorem displayEach_eq_map (items : List Word) : displayEach items = items.map display := by
  induction items with
  | nil => rfl
  | cons item rest inductionHypothesis => simp [displayEach, inductionHypothesis]

/-- Written words on one line, with a text between neighbours. -/
def join (separator : String) (words : List Word) : String :=
  separator.intercalate (words.map display)

/-- The source text of a sequence of words. -/
def displayAll (words : List Word) : String :=
  join " " words

/-- The blanks before a line at a depth of nesting; none at a depth that is not positive. -/
def padding (depth : Int) : String :=
  String.ofList (List.replicate (2 * depth).toNat ' ')

/-- The line of the written words collected so far, latest first, in a list at a depth of nesting;
none if there are none. -/
def collectedLine (depth : Int) (collected : List String) : List String :=
  if collected.isEmpty then [] else [padding depth ++ "  " ++ " ".intercalate collected.reverse]

mutual

/-- The lines of the layout of a word at a depth of nesting. Only a list that holds a list takes
more than one line. -/
def prettyLines (depth : Int) : Word → List String
  | list items =>
    if items.any isList then
      (padding depth ++ "\x7b") :: prettyItems depth [] items ++ [padding depth ++ "\x7d"]
    else
      [padding depth ++ display (list items)]
  | word => [padding depth ++ display word]
termination_by structural word => word

/-- The lines of the items of a list at a depth of nesting, given the written words that wait for a
line of theirs, latest first. -/
def prettyItems (depth : Int) (collected : List String) : List Word → List String
  | [] => collectedLine depth collected
  | item :: rest =>
    if isList item then
      collectedLine depth collected ++ prettyLines (depth + 1) item ++ prettyItems depth [] rest
    else
      prettyItems depth (display item :: collected) rest
termination_by structural items => items

end

/-- The layout of a word at a depth of nesting. -/
def pretty (depth : Int) (word : Word) : String :=
  "\n".intercalate (prettyLines depth word)

end Word
end Concatenative
