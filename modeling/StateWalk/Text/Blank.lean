/-!
# Blanks

A blank is a character with the White_Space property of Unicode: the space, the tab and the line ends
of ASCII, and the spaces and separators beyond it.
-/

namespace StateWalk.Text

/-- The code points of blanks, as inclusive ranges. -/
def blankRanges : List (Nat × Nat) :=
  [(0x9, 0xd), (0x20, 0x20), (0x85, 0x85), (0xa0, 0xa0), (0x1680, 0x1680), (0x2000, 0x200a),
  (0x2028, 0x2029), (0x202f, 0x202f), (0x205f, 0x205f), (0x3000, 0x3000)]

def isBlank (c : Char) : Bool :=
  blankRanges.any fun r => decide (r.1 ≤ c.toNat) && decide (c.toNat ≤ r.2)

end StateWalk.Text
