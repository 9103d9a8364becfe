/-!
# Decimal numerals
-/

namespace Script

/-- The value of a run of decimal digits, which must not be empty. -/
def decimalValue? (cs : List Char) : Option Nat :=
  if cs ≠ [] ∧ cs.all Char.isDigit then
    some (cs.foldl (fun n c => 10 * n + (c.toNat - '0'.toNat)) 0)
  else none

end Script
