/-!
# Ranges of code points

A class of characters is a list of ranges of code points, both ends included, in increasing order.
-/

namespace Docblock.Text

/-- Whether a code point lies in one of the ranges. The ranges are in increasing order, so the
search ends at the first one that starts above the code point. -/
def covers : List (Nat × Nat) → Nat → Bool
  | [], _ => false
  | (low, high) :: ranges, n =>
    if n < low then false else if n ≤ high then true else covers ranges n

end Docblock.Text
