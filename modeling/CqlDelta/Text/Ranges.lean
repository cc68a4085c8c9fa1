/-!
# Ranges of code points

A class of characters is a table of ranges, each given by its first and its last code point.
-/

namespace CqlDelta
namespace Text

/-- Whether one of the ranges holds the code point. -/
def inRanges (ranges : List (Nat × Nat)) (point : Nat) : Bool :=
  ranges.any fun range => range.1 ≤ point && point ≤ range.2

end Text
end CqlDelta
