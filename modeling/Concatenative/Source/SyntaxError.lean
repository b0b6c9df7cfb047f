import Concatenative.Source.Position

/-!
# Errors in a source text

What can be wrong with a text, and how it is reported: briefly as a message, or at length with the
position and an excerpt of the text around it.
-/

namespace Concatenative
namespace Source

/-- The ways in which a text fails to be a program. -/
inductive Flaw where
  /-- No particular reason. -/
  | malformed
  /-- A closing brace that closes nothing. -/
  | missingOpenBrace
  /-- An opening brace that nothing closes. -/
  | missingCloseBrace
  /-- A quote that nothing closes. -/
  | missingEndQuote
  /-- A number sign that no number in base sixteen follows, or one that is too large. -/
  | badHexLiteral
  deriving DecidableEq

/-- The short description of a flaw. -/
def Flaw.message : Flaw → String
  | .malformed => "parse error"
  | .missingOpenBrace => "missing \x7b"
  | .missingCloseBrace => "missing \x7d"
  | .missingEndQuote => "missing \""
  | .badHexLiteral => "invalid hex format"

/-- A flaw of a text, where it is, and what stands around it. -/
structure SyntaxError where
  /-- What is wrong. -/
  flaw : Flaw
  /-- Where it is; line zero if that is not known. -/
  position : Position := {}
  /-- The excerpt of the text around the position. -/
  context : String := ""
  deriving DecidableEq

namespace SyntaxError

/-- The number of lines shown on either side of a flaw. -/
def contextLines : Int := 2

/-- The error for a flaw at an offset of a text. -/
def locate (flaw : Flaw) (text : List Char) (offset : Int) : SyntaxError :=
  let position := Position.ofOffset text offset
  { flaw, position, context := excerpt text position contextLines }

/-- The short description. -/
def message (error : SyntaxError) : String :=
  error.flaw.message

/-- The long description, with position and excerpt where they are known. -/
def describe (error : SyntaxError) : String :=
  if error.position.line = 0 then "Parse error: " ++ error.message
  else
    "Parse error at line " ++ error.position.line.repr ++ ", column " ++
      error.position.column.repr ++ ": " ++ error.message ++
      (if error.context = "" then "" else "\n" ++ error.context)

end SyntaxError

/-- Why a text gives no words. -/
inductive ReadError where
  /-- The text has a flaw. -/
  | flawed (error : SyntaxError)
  /-- A decimal numeral has more digits than are read. -/
  | oversized (digits : Nat)
  deriving DecidableEq

end Source
end Concatenative
