import Script.Error.Outline
import Script.Files.Tree
import Script.Sink
import Script.Warning

/-!
# Failures

How the run of a script can fail as a whole, the diagnostics it is reported with, and the exit code
of the command that ran it.
-/

namespace Script

inductive Failure where
  | unreadable (path : String) (reason : ReadError)
  | missingEntryPoint
  /-- All syntax errors of the script, in the order they stand in it. -/
  | syntaxErrors (errors : List Error)
  | program (e : Error)
  deriving Inhabited

def exitSuccess : Nat := 0

def exitFailure : Nat := 1

def exitFatal : Nat := 9

namespace Failure

def exitCode : Failure → Nat
  | program e => if e.isFatal then exitFatal else exitFailure
  | _ => exitFailure

def message : Failure → String
  | unreadable path reason => s!"could not read '{path}': {reason.message}"
  | missingEntryPoint => "missing entry point function 'main'"
  | syntaxErrors errors => s!"{errors.length} syntax error(s)"
  | program e => e.message

private def located (e : Error) : String :=
  s!"ERROR:{e.position.line}: {e.message}\n"

/-- The diagnostics, one text for each reported error. -/
def diagnostics : Failure → List String
  | program e => if e.isFatal then [s!"FATAL: system error occured: {e.message}\n"] else [located e]
  | syntaxErrors errors => errors.map located
  | other => [s!"ERROR: {other.message}\n"]

/-- Writes the diagnostics. Losing some of them is worth a warning. -/
def report (failure : Failure) (sink : Sink) : Sink × Option Warning :=
  match sink.writeAll failure.diagnostics with
  | (sink, true) => (sink, none)
  | (sink, false) => (sink, some (.diagnosticLost Sink.full))

def outline : Failure → Outline
  | unreadable path reason =>
    .record "Unreadable" [("path", .leaf (quote path)), ("source", reason.outline)]
  | missingEntryPoint => .leaf "MissingEntryPoint"
  | syntaxErrors errors => .variant "Syntax" (.sequence (errors.map Error.outline))
  | program e => .variant "Program" e.outline

end Failure

end Script
