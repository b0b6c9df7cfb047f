import Concatenative.Text.Numeral
import Concatenative.Text.Printable

/-!
# Quoted names

Messages of the host quote the name of what failed. The quote is single, unless the name holds a
single quote and no double one; a quote of that kind and a backslash are escaped inside, and so is
what cannot be printed.
-/

namespace Concatenative
namespace Text

/-- The quote around a name. -/
def quoteFor (name : List Char) : Char :=
  if name.contains '\'' && !name.contains '"' then '"' else '\''

/-- A character by its code point, in as few digits as two, four or eight allow. -/
def escapeCode (c : Char) : String :=
  let digits := hexDigits c.toNat
  if c.toNat ≤ 0xFF then "\\x" ++ padLeft 2 '0' digits
  else if c.toNat ≤ 0xFFFF then "\\u" ++ padLeft 4 '0' digits
  else "\\U" ++ padLeft 8 '0' digits

/-- A character of a name between quotes of a kind. -/
def escape (quote : Char) (c : Char) : String :=
  if c = quote || c = '\\' then String.ofList ['\\', c]
  else if c = '\t' then "\\t"
  else if c = '\n' then "\\n"
  else if c = '\r' then "\\r"
  else if isPrintable c then c.toString
  else escapeCode c

/-- A name in quotes. -/
def quoted (name : String) : String :=
  let quote := quoteFor name.toList
  quote.toString ++ String.join (name.toList.map (escape quote)) ++ quote.toString

end Text
end Concatenative
