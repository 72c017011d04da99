import Bilingual.CodePointRanges

/-!
# White space

One notion of white space serves the lexers and all trimming: the code points
with the Unicode property `White_Space`.  It has twenty-five members.  The
separators U+001C to U+001F, the zero-width space and the byte order mark are
not among them.
-/

namespace Bilingual

/-- The runs of the property `White_Space`. -/
def whiteSpaceRanges : List CodePointRange :=
  [⟨0x09, 0x0D⟩, ⟨0x20, 0x20⟩, ⟨0x85, 0x85⟩, ⟨0xA0, 0xA0⟩, ⟨0x1680, 0x1680⟩,
    ⟨0x2000, 0x200A⟩, ⟨0x2028, 0x2029⟩, ⟨0x202F, 0x202F⟩, ⟨0x205F, 0x205F⟩,
    ⟨0x3000, 0x3000⟩]

/-- The character has the property `White_Space`. -/
def isWhiteSpace (character : Char) : Bool :=
  inSomeRange whiteSpaceRanges character

end Bilingual
