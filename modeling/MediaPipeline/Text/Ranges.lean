/-!
# Text/Ranges — sets of characters as ranges of code points

A property of characters that no rule gives is written as inclusive ranges of
code points, in ascending order.
-/


namespace MediaPipeline

namespace Text

/-- Whether one of some ranges holds the code point of a character. -/
def isInRanges (ranges : List (Nat × Nat)) (c : Char) : Bool :=
  ranges.any fun r => decide (r.1 ≤ c.toNat) && decide (c.toNat ≤ r.2)

end Text

end MediaPipeline
