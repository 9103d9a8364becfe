import Script.Text.Quoted

/-!
# Warnings

What is worth a note but stops nothing.
-/

namespace Script

inductive Warning where
  /-- A declaration hides a binding that was visible. -/
  | shadowing (name : String) (line : Nat)
  /-- The setting of the call depth is no positive number. -/
  | invalidDepth (text : String)
  /-- A diagnostic could not be written. -/
  | diagnosticLost (reason : String)
  deriving DecidableEq, Inhabited

namespace Warning

def message : Warning → String
  | shadowing name _ => s!"shadowing variable {quote name}"
  | invalidDepth text => s!"ignoring invalid VIOLET_MAX_DEPTH={quote text}"
  | diagnosticLost reason => s!"failed to write diagnostic: {reason}"

/-- The source line that the warning is about. -/
def line? : Warning → Option Nat
  | shadowing _ line => some line
  | invalidDepth _ | diagnosticLost _ => none

end Warning

end Script
