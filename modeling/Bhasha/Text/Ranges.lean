/-!
Sets of code points, given by ascending ranges. Properties of characters come as such tables.
-/

namespace Bhasha.Text

/-- Ranges of code points, the first and the last of each, in ascending order. -/
abbrev Ranges := List (Nat × Nat)

/-- Whether a code point lies in one of the ranges. They ascend, so the search is over at the
first range that starts behind the code point. -/
def Ranges.contains : Ranges → Nat → Bool
  | [], _ => false
  | (first, last) :: rest, n => decide (first ≤ n) && (decide (n ≤ last) || contains rest n)

end Bhasha.Text
