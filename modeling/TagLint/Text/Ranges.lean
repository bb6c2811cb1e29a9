/-!
# Code point ranges — sets of characters as lists of intervals
-/

namespace TagLint.Text

/-- Whether a code point lies in one of the closed intervals. -/
def inRanges (ranges : List (Nat × Nat)) (n : Nat) : Bool :=
  ranges.any fun r => r.1 ≤ n && n ≤ r.2

end TagLint.Text
