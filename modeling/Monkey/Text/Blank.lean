/-
# Blank characters

Source text may separate its tokens by any character with the Unicode property
White_Space. The property is a fixed list of code points, so it is kept as data;
the interactive shell asks the same question when it decides that a line is empty.
-/

namespace Monkey.Text

/-- The code points with the property White_Space, as inclusive ranges in ascending order. -/
def blankRanges : List (Nat × Nat) :=
  [(0x09, 0x0D), (0x20, 0x20), (0x85, 0x85), (0xA0, 0xA0), (0x1680, 0x1680),
    (0x2000, 0x200A), (0x2028, 0x2029), (0x202F, 0x202F), (0x205F, 0x205F), (0x3000, 0x3000)]

/-- Membership in one of the ranges: the property holds of no other code point. -/
def isBlank (c : Char) : Bool :=
  blankRanges.any fun range => range.1 ≤ c.toNat && c.toNat ≤ range.2

end Monkey.Text
