import SafeQuery.Text.Ranges

/-!
# Blank characters

Two notions of blank: the Unicode property White_Space, which decides whether a text is blank,
and the four characters that separate the tokens of an action.
-/

namespace SafeQuery.Text

/-- The ranges of the property White_Space. -/
def blankRanges : Ranges :=
  [(0x9, 0xD), (0x20, 0x20), (0x85, 0x85), (0xA0, 0xA0), (0x1680, 0x1680), (0x2000, 0x200A),
   (0x2028, 0x2029), (0x202F, 0x202F), (0x205F, 0x205F), (0x3000, 0x3000)]

def isBlank (c : Char) : Bool := blankRanges.contains c.toNat

/-- The characters that may stand between the tokens of an action. -/
def isSpace (c : Char) : Bool := c = ' ' || c = '\t' || c = '\r' || c = '\n'

end SafeQuery.Text
