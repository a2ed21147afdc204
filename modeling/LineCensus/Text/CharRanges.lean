/-!
# Ranges of characters

A property of characters is written as a list of ranges of code points, both ends
included.
-/
namespace LineCensus.Text

/-- A set of characters, as ranges of code points. -/
structure CharRanges where
  ranges : List (Nat × Nat)

def CharRanges.contains (t : CharRanges) (c : Char) : Bool :=
  t.ranges.any fun r => r.1 ≤ c.toNat && c.toNat ≤ r.2

end LineCensus.Text
