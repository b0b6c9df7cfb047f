import Concatenative.Text.CharRange

/-!
# Blank characters

A blank stands between words. The class is that of the Unicode white-space characters together
with the four information separators. The newline belongs to it; what a newline means besides is
the scanner's business.
-/

namespace Concatenative
namespace Text

/-- The ranges of blank characters, in increasing order. -/
def blankRanges : List CharRange :=
  [⟨0x0009, 0x000D⟩, ⟨0x001C, 0x0020⟩, ⟨0x0085, 0x0085⟩, ⟨0x00A0, 0x00A0⟩, ⟨0x1680, 0x1680⟩,
    ⟨0x2000, 0x200A⟩, ⟨0x2028, 0x2029⟩, ⟨0x202F, 0x202F⟩, ⟨0x205F, 0x205F⟩, ⟨0x3000, 0x3000⟩]

/-- A character that stands between words. -/
def isBlank (c : Char) : Bool :=
  inRanges blankRanges c

end Text
end Concatenative
