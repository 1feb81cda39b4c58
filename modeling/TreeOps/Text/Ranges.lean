/-!
# Sets of code points

A property of characters is a list of closed ranges of code points in ascending order.
-/

namespace TreeOps.Text

/-- Closed ranges of code points, in ascending order. -/
abbrev Ranges := List (Nat × Nat)

/-- Whether a code point lies in one of the ranges. -/
def Ranges.contains (ranges : Ranges) (point : Nat) : Bool :=
  ranges.any fun (first, last) => first ≤ point && point ≤ last

end TreeOps.Text
