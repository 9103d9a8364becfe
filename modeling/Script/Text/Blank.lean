import Script.Text.Ranges

/-!
# Blank characters

The characters with the property `White_Space` of the Unicode Character Database. They separate
tokens and are trimmed from settings.
-/

namespace Script

private def blankRanges : List (Nat × Nat) := [
  (9, 13), (32, 32), (133, 133), (160, 160), (5760, 5760), (8192, 8202), (8232, 8233),
  (8239, 8239), (8287, 8287), (12288, 12288)]

def isBlank (c : Char) : Bool :=
  inRanges blankRanges c

theorem toNat_of_isBlank {c : Char} (h : isBlank c) : c.toNat ≤ 32 ∨ 133 ≤ c.toNat := by
  simp only [isBlank, inRanges, blankRanges, List.any_cons, List.any_nil, Bool.or_eq_true,
    Bool.and_eq_true, decide_eq_true_eq, Bool.false_eq_true, or_false] at h
  omega

/-- The text without the blank characters at its two ends. -/
def trimBlank (s : String) : String :=
  String.ofList ((s.toList.dropWhile isBlank).reverse.dropWhile isBlank).reverse

end Script
