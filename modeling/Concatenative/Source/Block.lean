import Concatenative.Source.SyntaxError
import Concatenative.Word.Basic

/-!
# Open blocks

Words are collected in blocks, and in a block line by line. A block is read out last line first,
each line in its own order: code runs from its end, so that the lines run in the order in which
they were written.

The actions work on the open blocks, innermost first. An action that finds no block to work on
fails, and what it did before it failed stays done.
-/

namespace Concatenative
namespace Source

/-- A block that has been opened. -/
structure Block where
  /-- The offset at which it was opened. -/
  start : Int
  /-- The lines before the current one, latest first. -/
  earlier : List (List Word) := []
  /-- The words of the current line, latest first. -/
  current : List Word := []
  deriving DecidableEq

namespace Block

/-- The current line. -/
def line (block : Block) : List Word :=
  block.current.reverse

/-- The lines of a block in the order in which they were written. -/
def lines (block : Block) : List (List Word) :=
  block.earlier.reverse ++ [block.line]

/-- The words of a block, last line first. -/
def words (block : Block) : List Word :=
  block.line ++ block.earlier.flatten

/-- Begin a new line. -/
def newline (block : Block) : Block :=
  { block with earlier := block.line :: block.earlier, current := [] }

/-- Put a word at the end of the current line. -/
def emit (word : Word) (block : Block) : Block :=
  { block with current := word :: block.current }

@[simp] theorem line_emit (word : Word) (block : Block) :
    (block.emit word).line = block.line ++ [word] := by
  simp [emit, line]

@[simp] theorem lines_newline (block : Block) : block.newline.lines = block.lines ++ [[]] := by
  simp [newline, lines, line]

@[simp] theorem words_newline (block : Block) : block.newline.words = block.words := by
  simp [newline, words, line]

/-- The words of a block are those of its lines, last line first. -/
theorem words_eq_flatten_reverse_lines (block : Block) :
    block.words = block.lines.reverse.flatten := by
  simp [words, lines]

end Block

/-- An action on the open blocks, innermost first. -/
abbrev Assembly := EStateM Flaw (List Block)

namespace Assembly

/-- Open a block. -/
def push (start : Int) : Assembly Unit :=
  fun blocks => .ok () ({ start } :: blocks)

/-- Begin a new line in the innermost block. -/
def newline : Assembly Unit
  | [] => .error .missingOpenBrace []
  | block :: outer => .ok () (block.newline :: outer)

/-- Put a word into the innermost block. -/
def emit (word : Word) : Assembly Unit
  | [] => .error .missingOpenBrace []
  | block :: outer => .ok () (block.emit word :: outer)

/-- Take the innermost block away and give its words. -/
def flatten : Assembly (List Word)
  | [] => .error .missingOpenBrace []
  | block :: outer => .ok block.words outer

/-- Close the innermost block and put its words as a list into the block around it. -/
def pop : Assembly Unit := do
  let words ← flatten
  emit (.list words)

end Assembly
end Source
end Concatenative
