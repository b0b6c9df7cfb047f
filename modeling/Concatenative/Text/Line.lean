/-!
# Lines

Only a newline ends a line. `linesOf` is the plain cut, with one line more than there are
newlines; `splitLines` reads a text whose lines are terminated; `unifyNewlines` brings the three
usual line ends to a newline.
-/

namespace Concatenative
namespace Text

/-- One more character in front of a nonempty sequence of lines. -/
def addToLines (c : Char) (lines : List (List Char)) : List (List Char) :=
  if c = '\n' then [] :: lines
  else
    match lines with
    | [] => [[c]]
    | line :: later => (c :: line) :: later

/-- The lines of a text: what stands before, between and after its newlines. -/
def linesOf (text : List Char) : List (List Char) :=
  text.foldr addToLines [[]]

@[simp] theorem linesOf_nil : linesOf [] = [[]] := rfl

@[simp] theorem linesOf_cons (c : Char) (text : List Char) :
    linesOf (c :: text) = addToLines c (linesOf text) := rfl

theorem linesOf_ne_nil (text : List Char) : linesOf text ≠ [] := by
  cases text with
  | nil => simp
  | cons c rest =>
      simp only [linesOf_cons, addToLines]
      split
      · simp
      · split <;> simp

/-- A line without its final carriage return, if it has one. -/
def dropReturn (line : List Char) : List Char :=
  if line.getLast? = some '\r' then line.dropLast else line

/-- The lines of a text in which each line is terminated by a newline or by a carriage return and
a newline. The terminator of the last line may be missing. -/
def splitLines (text : List Char) : List (List Char) :=
  let lines := linesOf text
  let terminated := if lines.getLast? = some [] then lines.dropLast else lines
  terminated.map dropReturn

/-- The text with a carriage return, alone or before a newline, read as a newline. -/
def unifyNewlines : List Char → List Char
  | [] => []
  | '\r' :: '\n' :: rest => '\n' :: unifyNewlines rest
  | c :: rest => (if c = '\r' then '\n' else c) :: unifyNewlines rest

end Text
end Concatenative
