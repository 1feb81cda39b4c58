import TreeOps.Text.Ranges

/-!
# White space

White space is the Unicode property `White_Space`. Settings are read after `trim`, and a value of
white space alone counts as absent.
-/

namespace TreeOps.Text

/-- Code points with the property `White_Space`. -/
def whiteSpace : Ranges :=
  [(0x9, 0xd), (0x20, 0x20), (0x85, 0x85), (0xa0, 0xa0), (0x1680, 0x1680), (0x2000, 0x200a),
    (0x2028, 0x2029), (0x202f, 0x202f), (0x205f, 0x205f), (0x3000, 0x3000)]

/-- Whether a character is white space. -/
def isBlank (c : Char) : Bool :=
  whiteSpace.contains c.toNat

/-- The characters between the first and the last that are not white space. -/
def trimChars (cs : List Char) : List Char :=
  ((cs.dropWhile isBlank).reverse.dropWhile isBlank).reverse

/-- A text without its leading and trailing white space. -/
def trim (s : String) : String :=
  String.ofList (trimChars s.toList)

end TreeOps.Text
