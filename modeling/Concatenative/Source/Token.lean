import Concatenative.Text.Blank
import Concatenative.Text.TabStop

/-!
# Tokens

What the tokens of a text are, and a scanner that finds them. A text is scanned character by
character, after its tabs have been expanded. Every character belongs to a token, to a comment or to
the blanks between them, so scanning never fails: a quote that nothing closes is a token of its own,
for the reader of tokens to refuse.

* A newline and a semicolon separate lines, and braces stand alone.
* A string is everything between two quotes.
* A number sign begins a comment if a blank, one of `{};=!` or the end follows it.
* A run of equality signs stands alone.
* Anything else runs up to a blank, a brace, a semicolon or an equality sign.
-/

namespace Concatenative
namespace Source

/-- What a token is. -/
inductive Lexeme where
  /-- The end of a line of text. -/
  | newline
  /-- The other separator of lines. -/
  | semicolon
  /-- The beginning of a block. -/
  | opening
  /-- The end of a block. -/
  | closing
  /-- A string, without its quotes. -/
  | quoted (text : String)
  /-- The rest of a text from a quote that nothing closes, with that quote. -/
  | unclosed (text : String)
  /-- A word that is neither. -/
  | bare (text : String)
  deriving DecidableEq

/-- A lexeme and the offset at which it begins in the expanded text. -/
structure Token where
  /-- What the token is. -/
  lexeme : Lexeme
  /-- Where it begins. -/
  offset : Nat
  deriving DecidableEq

/-- The characters that end a bare word, blanks apart. -/
def wordEnds : List Char :=
  ['\x7b', '\x7d', ';', '=']

/-- The character cannot continue a bare word. -/
def endsWord (c : Char) : Bool :=
  Text.isBlank c || wordEnds.contains c

/-- The character makes the number sign before it the beginning of a comment. -/
def opensComment (c : Char) : Bool :=
  endsWord c || c = '!'

namespace Scan

/-- What is being scanned. Characters seen so far are kept latest first. -/
inductive Mode where
  /-- Nothing has begun. -/
  | between
  /-- A bare word. -/
  | word (start : Nat) (seen : List Char)
  /-- A run of equality signs. -/
  | equals (start : Nat) (count : Nat)
  /-- A number sign, of which the next character tells the meaning. -/
  | sharp (start : Nat)
  /-- A comment. -/
  | comment
  /-- A string. -/
  | string (start : Nat) (seen : List Char)
  deriving DecidableEq

/-- The bare word made of the characters seen, latest first. -/
def bareWord (seen : List Char) : Lexeme :=
  .bare (String.ofList seen.reverse)

/-- The bare word made of a number of equality signs. -/
def equalsWord (count : Nat) : Lexeme :=
  .bare (String.ofList (List.replicate count '='))

/-- The string made of the characters seen, latest first. -/
def stringLexeme (seen : List Char) : Lexeme :=
  .quoted (String.ofList seen.reverse)

/-- A character where nothing has begun: the tokens it completes and what it begins. -/
def opens (offset : Nat) (c : Char) : List Token × Mode :=
  if c = '\n' then ([⟨.newline, offset⟩], .between)
  else if c = ';' then ([⟨.semicolon, offset⟩], .between)
  else if c = '\x7b' then ([⟨.opening, offset⟩], .between)
  else if c = '\x7d' then ([⟨.closing, offset⟩], .between)
  else if c = '"' then ([], .string offset [])
  else if c = '#' then ([], .sharp offset)
  else if c = '=' then ([], .equals offset 1)
  else if Text.isBlank c then ([], .between)
  else ([], .word offset [c])

/-- A character of a comment, which only a newline ends. -/
def comments (offset : Nat) (c : Char) : List Token × Mode :=
  if c = '\n' then ([⟨.newline, offset⟩], .between) else ([], .comment)

/-- The tokens that a character completes, and what is being scanned after it. -/
def advance (offset : Nat) (c : Char) : Mode → List Token × Mode
  | .between => opens offset c
  | .word start seen =>
    if endsWord c then
      let (tokens, next) := opens offset c
      (⟨bareWord seen, start⟩ :: tokens, next)
    else ([], .word start (c :: seen))
  | .equals start count =>
    if c = '=' then ([], .equals start (count + 1))
    else
      let (tokens, next) := opens offset c
      (⟨equalsWord count, start⟩ :: tokens, next)
  | .sharp start =>
    if opensComment c then comments offset c else ([], .word start [c, '#'])
  | .comment => comments offset c
  | .string start seen =>
    if c = '"' then ([⟨stringLexeme seen, start⟩], .between)
    else ([], .string start (c :: seen))

/-- The token that the end of the text completes. -/
def finish : Mode → List Token
  | .between => []
  | .word start seen => [⟨bareWord seen, start⟩]
  | .equals start count => [⟨equalsWord count, start⟩]
  | .sharp _ => []
  | .comment => []
  | .string start seen => [⟨.unclosed (String.ofList ('"' :: seen.reverse)), start⟩]

/-- The tokens of the rest of a text, given where it begins and what is being scanned there. -/
def tokensFrom (offset : Nat) (mode : Mode) : List Char → List Token
  | [] => finish mode
  | c :: rest =>
    let (tokens, next) := advance offset c mode
    tokens ++ tokensFrom (offset + 1) next rest

@[simp] theorem tokensFrom_nil (offset : Nat) (mode : Mode) :
    tokensFrom offset mode [] = finish mode := rfl

theorem tokensFrom_cons (offset : Nat) (mode : Mode) (c : Char) (rest : List Char) :
    tokensFrom offset mode (c :: rest) =
      (advance offset c mode).1 ++ tokensFrom (offset + 1) (advance offset c mode).2 rest := rfl

end Scan

/-- The tokens of a text. -/
def tokens (text : List Char) : List Token :=
  Scan.tokensFrom 0 .between (Text.expandTabs text)

end Source
end Concatenative
