import Formula.Text.Ranges

/-!
# Blank characters

The blanks are the characters with the property *White_Space*.  They separate
tokens and surround the bounds of an interval; `trim` takes them off both ends of a text.
-/

namespace Formula

namespace Text

/-- The code points with the property *White_Space*. -/
def blankRanges : CodeRanges :=
  [(0x9, 0xD), (0x20, 0x20), (0x85, 0x85), (0xA0, 0xA0), (0x1680, 0x1680), (0x2000, 0x200A),
   (0x2028, 0x2029), (0x202F, 0x202F), (0x205F, 0x205F), (0x3000, 0x3000)]

/-- A blank: a character that separates tokens and belongs to none. -/
def isBlank (c : Char) : Bool := blankRanges.has c.toNat

/-- The text without the blanks at its ends. -/
def trim (cs : List Char) : List Char :=
  ((cs.dropWhile isBlank).reverse.dropWhile isBlank).reverse

end Text

end Formula
