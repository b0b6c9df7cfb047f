import Concatenative.Arithmetic
import Concatenative.Source.Block
import Concatenative.Source.Grammar
import Concatenative.Text.Numeral

/-!
# Programs

`parse` turns a text into the sequence of words that is loaded as code. `readWord` tells what a
bare word is: a number in base sixteen behind a number sign, a decimal integer of thirty-two bits,
or else an atom.
-/

namespace Concatenative
namespace Source

/-- The greatest number in base sixteen. -/
def maxHex : Nat := 4294967295

/-- The greatest number of digits of a decimal numeral that is read. -/
def maxDigits : Nat := 4300

/-- The sign and the digits of a decimal numeral: whether it is negative, and its digits. -/
def decimal? (text : List Char) : Option (Bool × List Char) :=
  let (negative, digits) :=
    match text with
    | '-' :: digits => (true, digits)
    | '+' :: digits => (false, digits)
    | digits => (false, digits)
  if digits.isEmpty || !digits.all Text.isDecimalDigit then none else some (negative, digits)

/-- Why a bare word cannot be read. -/
inductive Misreading where
  /-- A number sign without a number of base sixteen in range. -/
  | badHex
  /-- A decimal numeral with too many digits. -/
  | oversized (digits : Nat)
  deriving DecidableEq

/-- The integer with a sign and digits. -/
def signedNumber (negative : Bool) (digits : List Char) : Int :=
  if negative then -(Text.numberOf 10 digits : Int) else Text.numberOf 10 digits

/-- The integer that a decimal numeral denotes; nothing for a text that is no numeral. -/
def readInteger (text : List Char) : Except Misreading (Option Int) :=
  match decimal? text with
  | none => .ok none
  | some (negative, digits) =>
    if maxDigits < digits.length then .error (.oversized digits.length)
    else .ok (some (signedNumber negative digits))

/-- The word that a number sign and the characters after it stand for. -/
def readHex (digits : List Char) : Except Misreading Word :=
  if digits.isEmpty || !digits.all Text.isHexDigit then .error .badHex
  else if maxHex < Text.numberOf 16 digits then .error .badHex
  else .ok (.hex (Text.numberOf 16 digits))

/-- The word that a bare word without number sign stands for. -/
def readPlain (text : List Char) : Except Misreading Word :=
  match readInteger text with
  | .error misreading => .error misreading
  | .ok none => .ok (.atom (String.ofList text))
  | .ok (some number) =>
    if minInt ≤ number ∧ number ≤ maxInt then .ok (.int number)
    else .ok (.atom (String.ofList text))

/-- The word that a bare word stands for. -/
def readWord (text : List Char) : Except Misreading Word :=
  match text with
  | '#' :: digits => readHex digits
  | text => readPlain text

/-- Carry out an action on the open blocks on account of what stands at an offset of a text. -/
def assemble
    (text : List Char)
    (offset : Int)
    (action : Assembly Unit)
    (blocks : List Block) :
    Except ReadError (List Block) :=
  match action blocks with
  | .ok () after => .ok after
  | .error flaw _ => .error (.flawed (.locate flaw text offset))

/-- Bring one token of a text into the open blocks. -/
def place (text : List Char) (blocks : List Block) (token : Token) :
    Except ReadError (List Block) :=
  match token.lexeme with
  | .opening => assemble text token.offset (Assembly.push token.offset) blocks
  | .closing => assemble text token.offset Assembly.pop blocks
  | .newline => assemble text token.offset Assembly.newline blocks
  | .semicolon => assemble text token.offset Assembly.newline blocks
  | .quoted content => assemble text token.offset (Assembly.emit (.str content)) blocks
  | .unclosed _ => .error (.flawed (.locate .missingEndQuote text token.offset))
  | .bare content =>
    match readWord content.toList with
    | .ok word => assemble text token.offset (Assembly.emit word) blocks
    | .error .badHex => .error (.flawed (.locate .badHexLiteral text token.offset))
    | .error (.oversized digits) => .error (.oversized digits)

/-- The words of the one block that should be open at the end of a text. -/
def conclude (text : List Char) : List Block → Except ReadError (List Word)
  | [] => .error (.flawed (.locate .missingOpenBrace text text.length))
  | [block] => .ok block.words
  | block :: _ :: _ => .error (.flawed (.locate .missingCloseBrace text block.start))

/-- The words that the tokens of a text stand for, in the order in which they are loaded. -/
def readTokens (text : List Char) (tokens : List Token) : Except ReadError (List Word) := do
  let blocks ← tokens.foldlM (place text) [{ start := 0 }]
  conclude text blocks

/-- The program that a sequence of characters denotes. -/
def parseChars (text : List Char) : Except ReadError (List Word) := do
  let tokens ← (tokenize text).mapError .flawed
  readTokens text tokens

/-- The program that a text denotes: the words that are loaded as code, of which the last one runs
first. -/
def parse (text : String) : Except ReadError (List Word) :=
  parseChars text.toList

end Source
end Concatenative
