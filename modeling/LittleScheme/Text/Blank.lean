/-!
# Blank characters

`isBlank` is white space in the sense of the Unicode properties `White_Space` and "bidirectional
type WS, B or S": what separates tokens, what `trim` takes off the text of a setting, and what makes
an input line empty.
-/

namespace LittleScheme.Text

/-- The 29 white space characters: controls, the space, and the separators of general
punctuation. -/
def isBlank (c : Char) : Bool :=
  let n := c.toNat
  (0x09 ≤ n && n ≤ 0x0D) || (0x1C ≤ n && n ≤ 0x20) || n == 0x85 || n == 0xA0 ||
    n == 0x1680 || (0x2000 ≤ n && n ≤ 0x200A) || n == 0x2028 || n == 0x2029 || n == 0x202F ||
    n == 0x205F || n == 0x3000

/-- Drop the blanks at both ends. -/
def trim (cs : List Char) : List Char :=
  ((cs.dropWhile isBlank).reverse.dropWhile isBlank).reverse

/-- Nothing but blanks; the empty text counts. -/
def allBlank (cs : List Char) : Bool := cs.all isBlank

end LittleScheme.Text
