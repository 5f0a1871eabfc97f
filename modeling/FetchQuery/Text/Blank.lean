import FetchQuery.Text.Basic

/-!
# Blanks and white space

Two classes of characters that separate words. Markup knows four blanks. Values that a
person typed are trimmed of every character with the Unicode property `White_Space`.
-/

namespace FetchQuery

namespace Text

/-- The blanks of markup: space, tab, carriage return and line feed. -/
def isBlank (c : Char) : Bool :=
  c == ' ' || c == '\t' || c == '\r' || c == '\n'

/-- A text without its leading blanks. -/
def dropBlanks (text : Text) : Text :=
  text.dropWhile isBlank

/-- The first and last code points of each range of `White_Space`. -/
def whiteSpaceRanges : List (Nat × Nat) :=
  [(0x9, 0xD), (0x20, 0x20), (0x85, 0x85), (0xA0, 0xA0), (0x1680, 0x1680), (0x2000, 0x200A),
    (0x2028, 0x2029), (0x202F, 0x202F), (0x205F, 0x205F), (0x3000, 0x3000)]

/-- A character with the Unicode property `White_Space`. -/
def isWhiteSpace (c : Char) : Bool :=
  whiteSpaceRanges.any fun range => decide (range.1 ≤ c.toNat) && decide (c.toNat ≤ range.2)

/-- A text without the white space at both its ends. -/
def trim (text : Text) : Text :=
  dropEndWhile isWhiteSpace (text.dropWhile isWhiteSpace)

end Text

end FetchQuery
