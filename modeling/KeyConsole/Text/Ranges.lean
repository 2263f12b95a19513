/-!
# Text.Ranges: character classes given by ranges of code points
-/

namespace KeyConsole.Text

/-- Whether a code point lies in one of the ranges, ends included. -/
def inRanges (ranges : Array (Nat × Nat)) (code : Nat) : Bool :=
  ranges.any fun (low, high) => low ≤ code && code ≤ high

end KeyConsole.Text
