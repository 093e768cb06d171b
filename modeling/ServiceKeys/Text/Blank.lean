import ServiceKeys.Text.CodeRange

/-!
# Blanks

Whitespace in the wide sense: the ASCII blanks with the four separators `U+001C` to `U+001F`, the
next-line character, and every space, line and paragraph separator of Unicode 14.  The zero-width
space is not one of them.
-/

namespace ServiceKeys.Text

/-- The blanks, as closed ranges of code points. -/
def blankRanges : List (Nat × Nat) := [
  (0x9, 0xD), (0x1C, 0x20), (0x85, 0x85), (0xA0, 0xA0), (0x1680, 0x1680), (0x2000, 0x200A),
  (0x2028, 0x2029), (0x202F, 0x202F), (0x205F, 0x205F), (0x3000, 0x3000)]

/-- A blank of any kind. -/
def isBlank (c : Char) : Bool := inRanges blankRanges c.toNat

/-- A blank of the ASCII range without the four separators. -/
def isAsciiBlank (c : Char) : Bool :=
  c == ' ' || (0x09 ≤ c.toNat && c.toNat ≤ 0x0D)

end ServiceKeys.Text
