/-!
# Numerals

Reading and writing numbers in a base up to sixteen. Digits are the ASCII ones; letters
are read in either case and written small.
-/

namespace Concatenative
namespace Text

/-- A decimal digit. -/
def isDecimalDigit (c : Char) : Bool :=
  '0' ≤ c && c ≤ '9'

/-- A digit in base sixteen. -/
def isHexDigit (c : Char) : Bool :=
  isDecimalDigit c || ('a' ≤ c && c ≤ 'f') || ('A' ≤ c && c ≤ 'F')

/-- The value of a digit in base sixteen. -/
def digitValue (c : Char) : Nat :=
  if isDecimalDigit c then c.toNat - '0'.toNat
  else if 'a' ≤ c then c.toNat - 'a'.toNat + 10
  else c.toNat - 'A'.toNat + 10

/-- The number that a sequence of digits denotes, most significant digit first. -/
def numberOf (base : Nat) (digits : List Char) : Nat :=
  digits.foldl (fun number digit => base * number + digitValue digit) 0

/-- The digits of a number in base sixteen, behind a sign if it is negative. -/
def hexDigits : Int → String
  | .ofNat number => String.ofList (Nat.toDigits 16 number)
  | .negSucc number => "-" ++ String.ofList (Nat.toDigits 16 (number + 1))

/-- A text padded on its left to a least width. -/
def padLeft (width : Nat) (padding : Char) (text : String) : String :=
  String.ofList (List.replicate (width - text.length) padding) ++ text

end Text
end Concatenative
