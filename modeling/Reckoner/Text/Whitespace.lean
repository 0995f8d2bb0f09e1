/-!
# White space around a line

The characters that Unicode counts as white space, with the four ASCII separators. A line of
nothing else is empty for the console; inside an expression only the ASCII blank separates.
-/

set_option autoImplicit false

namespace Reckoner.Text

def whitespaceRanges : List (Nat × Nat) :=
  [(0x9, 0xd), (0x1c, 0x20), (0x85, 0x85), (0xa0, 0xa0), (0x1680, 0x1680), (0x2000, 0x200a),
    (0x2028, 0x2029), (0x202f, 0x202f), (0x205f, 0x205f), (0x3000, 0x3000)]

def isWhitespace (c : Char) : Bool :=
  whitespaceRanges.any fun range => range.1 ≤ c.toNat && c.toNat ≤ range.2

/-- Takes white space off both ends. -/
def trim (s : List Char) : List Char :=
  ((s.dropWhile isWhitespace).reverse.dropWhile isWhitespace).reverse

end Reckoner.Text
