/-!
# Character ranges

A class of characters given as a list of closed intervals of code points.
-/

namespace Script

def inRanges (ranges : List (Nat × Nat)) (c : Char) : Bool :=
  ranges.any fun (first, last) => first ≤ c.toNat && c.toNat ≤ last

end Script
