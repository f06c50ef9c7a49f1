/-!
# Character ranges

A character property beyond ASCII is a list of inclusive ranges of code points. A
range is written once, in increasing order, and a character has the property when some
range covers it.
-/

namespace HclEditor.Text

/-- Inclusive ranges of code points, in increasing order. -/
abbrev Ranges := List (Nat × Nat)

/-- Some range contains the character's code point. -/
def Ranges.covers (ranges : Ranges) (c : Char) : Bool :=
  ranges.any fun range => decide (range.1 ≤ c.toNat) && decide (c.toNat ≤ range.2)

/-- Whether a character lies beyond ASCII. -/
def isBeyondAscii (c : Char) : Bool :=
  decide (128 ≤ c.toNat)

end HclEditor.Text
