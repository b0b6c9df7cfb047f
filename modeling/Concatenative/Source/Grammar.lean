import Concatenative.Source.SyntaxError
import Concatenative.Source.Token

/-!
# The grammar of tokens

A text is a repetition of blanks and tokens up to its end. What stands at the front of a text is
tried against the alternatives of the grammar in their order, and the first one that matches is
taken, as far as it goes. A text at which no alternative matches before its end is malformed.

The scanner of `Concatenative.Source.Token` finds the same tokens character by character.
-/

namespace Concatenative
namespace Source

/-- What an alternative takes from the front of a text: never nothing, so that a repetition of
alternatives comes to an end. -/
structure Match (chars : List Char) where
  /-- The lexeme that has been found; nothing for blanks and comments. -/
  lexeme? : Option Lexeme
  /-- The characters that have been taken. -/
  taken : List Char
  /-- The characters behind them. -/
  rest : List Char
  /-- Together they are the text. -/
  split : taken ++ rest = chars
  /-- At least one character has been taken. -/
  takesSome : taken ≠ []

namespace Match

theorem length_rest_lt {chars : List Char} (found : Match chars) :
    found.rest.length < chars.length := by
  have longer := List.length_pos_iff.mpr found.takesSome
  have whole := congrArg List.length found.split
  rw [List.length_append] at whole
  omega

/-- The token that a match at an offset gives, if any. -/
def tokens {chars : List Char} (found : Match chars) (offset : Nat) : List Token :=
  found.lexeme?.toList.map fun lexeme => ⟨lexeme, offset⟩

/-- The match of the first character alone. -/
def single (lexeme : Lexeme) (c : Char) (rest : List Char) : Match (c :: rest) where
  lexeme? := some lexeme
  taken := [c]
  rest := rest
  split := rfl
  takesSome := List.cons_ne_nil _ _

/-- The match of the first character and of all others up to the first one outside a class. -/
def run
    (lexeme? : List Char → Option Lexeme)
    (goesOn : Char → Bool)
    (first : Char)
    (others : List Char) :
    Match (first :: others) where
  lexeme? := lexeme? (first :: others.takeWhile goesOn)
  taken := first :: others.takeWhile goesOn
  rest := others.dropWhile goesOn
  split := congrArg (first :: ·) List.takeWhile_append_dropWhile
  takesSome := List.cons_ne_nil _ _

end Match

namespace Grammar

/-- An alternative of the grammar: what it takes from the front of a text, if it matches there. -/
abbrev Alternative := (chars : List Char) → Option (Match chars)

/-- The lexeme of a bare word. -/
def bareLexeme (chars : List Char) : Option Lexeme :=
  some (.bare (String.ofList chars))

/-- The character is a blank within a line. -/
def isInlineBlank (c : Char) : Bool :=
  Text.isBlank c && c ≠ '\n'

/-- Blanks within a line. -/
def blank : Alternative
  | c :: rest => if isInlineBlank c then some (.run (fun _ => none) isInlineBlank c rest) else none
  | [] => none

/-- A character that stands for itself. -/
def literal (mark : Char) (lexeme : Lexeme) : Alternative
  | c :: rest => if c = mark then some (.single lexeme c rest) else none
  | [] => none

/-- A string, up to the next quote. -/
def quotedString : Alternative
  | first :: others =>
    if first = '"' then
      match cut : others.dropWhile (· ≠ '"') with
      | [] => none
      | last :: rest =>
        let content := others.takeWhile (· ≠ '"')
        some {
          lexeme? := some (.quoted (String.ofList content))
          taken := first :: (content ++ [last])
          rest := rest
          split := by
            have whole : content ++ last :: rest = others := by
              rw [← cut]
              exact List.takeWhile_append_dropWhile
            simp [← whole]
          takesSome := List.cons_ne_nil _ _ }
    else none
  | [] => none

/-- A quote that no other follows, and everything behind it. -/
def openString : Alternative
  | first :: others =>
    if first = '"' ∧ '"' ∉ others then
      some {
        lexeme? := some (.unclosed (String.ofList (first :: others)))
        taken := first :: others
        rest := []
        split := List.append_nil _
        takesSome := List.cons_ne_nil _ _ }
    else none
  | [] => none

/-- A comment: a number sign that a character for it or the end follows, and the rest of its
line. -/
def comment : Alternative
  | first :: others =>
    if first = '#' ∧ others.head?.all opensComment then
      some (.run (fun _ => none) (· ≠ '\n') first others)
    else none
  | [] => none

/-- A bare word: a run of equality signs, or else all characters up to one that ends words. -/
def word : Alternative
  | first :: others =>
    if first = '=' then some (.run bareLexeme (· = '=') first others)
    else if endsWord first ∨ first = '"' then none
    else some (.run bareLexeme (fun c => !endsWord c) first others)
  | [] => none

/-- The alternatives in the order in which they are tried. -/
def alternatives : List Alternative :=
  [blank, literal '\n' .newline, literal ';' .semicolon, literal '\x7b' .opening,
    literal '\x7d' .closing, quotedString, openString, comment, word]

/-- What the first alternative that matches takes from the front of a text. -/
def firstMatch : Alternative := fun chars =>
  alternatives.findSome? fun alternative => alternative chars

/-- The tokens of the rest of a text, given the offset at which it begins; or the offset at which
the grammar does not go on although the text does. -/
def tokensFrom (offset : Nat) (chars : List Char) : Except Nat (List Token) :=
  match firstMatch chars with
  | some found => do
    let later ← tokensFrom (offset + found.taken.length) found.rest
    return found.tokens offset ++ later
  | none => if chars.isEmpty then .ok [] else .error offset
termination_by chars.length
decreasing_by exact found.length_rest_lt

end Grammar

/-- The tokens of a text, after its tabs have been expanded. -/
def tokenize (text : List Char) : Except SyntaxError (List Token) :=
  match Grammar.tokensFrom 0 (Text.expandTabs text) with
  | .ok tokens => .ok tokens
  | .error offset => .error (.locate .malformed text offset)

end Source
end Concatenative
