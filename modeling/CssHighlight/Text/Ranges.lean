/-!
# Ranges of code points

Character properties that no short rule describes are kept as lists of ranges.
-/
namespace CssHighlight.Text

/-- Whether a code point lies in one of the ranges, both ends included. -/
def inRanges (ranges : List (Nat × Nat)) (code : Nat) : Bool :=
  ranges.any fun range => range.1 ≤ code && code ≤ range.2

end CssHighlight.Text
