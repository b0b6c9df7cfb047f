/-!
# Classes of characters given by code-point ranges

A class that a standard lists as ranges of code points is kept here as that list, so that the
table can be read against the standard.
-/

namespace Concatenative
namespace Text

/-- A closed interval of code points. -/
structure CharRange where
  /-- The least code point of the range. -/
  first : Nat
  /-- The greatest code point of the range. -/
  last : Nat
  deriving DecidableEq

namespace CharRange

/-- The range holds the character. -/
def holds (range : CharRange) (c : Char) : Bool :=
  range.first ≤ c.toNat && c.toNat ≤ range.last

end CharRange

/-- Some range of the table holds the character. -/
def inRanges (table : List CharRange) (c : Char) : Bool :=
  table.any fun range => range.holds c

end Text
end Concatenative
