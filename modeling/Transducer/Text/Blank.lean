import Transducer.Text.Ranges

/-!
# White space

The property White_Space of the Unicode character database: twenty-five characters.

* `isBlank`: the character has the property.
-/

namespace Transducer.Text

/-- The code points with the property White_Space. -/
def blankRanges : Ranges :=
  [(0x09, 0x0d), (0x20, 0x20), (0x85, 0x85), (0xa0, 0xa0), (0x1680, 0x1680), (0x2000, 0x200a),
   (0x2028, 0x2029), (0x202f, 0x202f), (0x205f, 0x205f), (0x3000, 0x3000)]

/-- The character is white space. -/
def isBlank (c : Char) : Bool := inRanges blankRanges c

end Transducer.Text
