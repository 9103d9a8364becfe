import Script.Text.Blank
import Script.Text.Decimal
import Script.Warning

/-!
# Options

The settings of a run. The limit of the call depth can be set to any positive number of 64 bits.
-/

namespace Script

structure Options where
  debug : Bool
  maxDepth : Nat
  deriving DecidableEq, Inhabited

def defaultMaxDepth : Nat := 200

/-- Reads a setting of the call depth: a positive number below `2^64`, with an optional plus sign
and blanks around it. -/
def depthOfText? (text : String) : Option Nat :=
  let digits := match (trimBlank text).toList with
    | '+' :: cs => cs
    | cs => cs
  (decimalValue? digits).filter fun n => 0 < n ∧ n < 18446744073709551616

/-- The options for a setting of the call depth, which may be missing. One that cannot be read is
ignored with a warning. -/
def Options.ofSetting (debug : Bool) (setting : Option String) : Options × Option Warning :=
  match setting with
  | none => (⟨debug, defaultMaxDepth⟩, none)
  | some text =>
    match depthOfText? text with
    | some depth => (⟨debug, depth⟩, none)
    | none => (⟨debug, defaultMaxDepth⟩, some (.invalidDepth text))

end Script
