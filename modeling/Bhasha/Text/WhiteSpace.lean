import Bhasha.Text.Ranges

/-!
White space: the characters with the property of that name in the Unicode character database.
There are twenty-five of them, in ten ranges.
-/

namespace Bhasha.Text

/-- White space. -/
def Ranges.whiteSpace : Ranges :=
  [(0x9, 0xD), (0x20, 0x20), (0x85, 0x85), (0xA0, 0xA0), (0x1680, 0x1680), (0x2000, 0x200A),
    (0x2028, 0x2029), (0x202F, 0x202F), (0x205F, 0x205F), (0x3000, 0x3000)]

/-- Whether a character is white space. -/
def isWhiteSpace (c : Char) : Bool :=
  Ranges.whiteSpace.contains c.toNat

/-- Whether a text has nothing but white space. -/
def isVoid (s : String) : Bool :=
  s.toList.all isWhiteSpace

end Bhasha.Text
