import Concatenative.Text.Line
import Concatenative.Text.Numeral

/-!
# Positions in a source text

A position is a line and a column, both counted from one. `Position.ofOffset` finds the position of
a character offset. An offset past the end keeps counting columns on the last line; a negative one
finds its line from the end of the text, and its column is not moved along. `excerpt` shows the
lines around a position, with a caret under it.
-/

namespace Concatenative
namespace Source

/-- A line and a column, both counted from one. -/
structure Position where
  /-- The number of the line. -/
  line : Int := 0
  /-- The number of the column. -/
  column : Int := 0
  deriving DecidableEq

/-- The offset at which the last line of a text begins. -/
def lastLineStart (text : List Char) : Nat :=
  text.length - (text.reverse.takeWhile fun c => c ≠ '\n').length

/-- The characters of a text before an offset; a negative offset counts from the end. -/
def charsBefore (text : List Char) : (offset : Int) → List Char
  | .ofNat count => text.take count
  | .negSucc count => text.take (text.length - (count + 1))

/-- The position of an offset in a text. -/
def Position.ofOffset (text : List Char) (offset : Int) : Position where
  line := (charsBefore text offset).count '\n' + 1
  column := offset - lastLineStart (charsBefore text offset) + 1

/-- A source line under its number. -/
def numberedLine (number : Nat) (line : List Char) : String :=
  Text.padLeft 4 ' ' number.repr ++ ": " ++ String.ofList line

/-- The line that points at a column of the numbered line above it. -/
def caretLine (column : Int) : String :=
  String.ofList (List.replicate 6 ' ' ++ List.replicate (column - 1).toNat ' ') ++ "^ here"

/-- The lines of a text from `around` lines before a position to `around` lines after it, with a
caret under the position. -/
def excerptLines (text : List Char) (position : Position) (around : Int) : List String :=
  (((Text.linesOf text).zipIdx 1).filter fun (_, number) =>
    position.line ≤ number + around && number ≤ position.line + around).flatMap
    fun (line, number) =>
      numberedLine number line ::
        if number = position.line then [caretLine position.column] else []

/-- The excerpt of a text around a position. -/
def excerpt (text : List Char) (position : Position) (around : Int) : String :=
  "\n".intercalate (excerptLines text position around)

end Source
end Concatenative
