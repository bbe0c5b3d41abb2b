/-!
Blank characters: the property White_Space of Unicode, and text with its blanks at both ends
removed.
-/

namespace Confine.Text

/-- The blank characters are those with the Unicode property White_Space. -/
def isBlank (c : Char) : Bool :=
  let n := c.toNat
  (9 ≤ n && n ≤ 13) || n == 0x20 || n == 0x85 || n == 0xA0 || n == 0x1680 ||
    (0x2000 ≤ n && n ≤ 0x200A) || n == 0x2028 || n == 0x2029 || n == 0x202F || n == 0x205F ||
    n == 0x3000

/-- The text without its leading blanks. -/
def trimLeft (s : List Char) : List Char := s.dropWhile isBlank

/-- The text without its leading and trailing blanks. -/
def trim (s : List Char) : List Char := (trimLeft (trimLeft s).reverse).reverse

end Confine.Text
