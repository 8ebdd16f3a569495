/-!
# Ranges of code points

Properties of characters are given as ranges of code points with both ends included.
-/

namespace Laminar.Text

/-- The code point of a character lies in one of some ranges. -/
def inRanges (ranges : List (Nat × Nat)) (c : Char) : Bool :=
  ranges.any fun range => range.1 ≤ c.toNat && c.toNat ≤ range.2

end Laminar.Text
