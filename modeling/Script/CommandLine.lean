import Script.Eval.Program
import Script.Options

/-!
# The command line

The command takes the file of a script and runs it. What the script prints goes to the standard
output; warnings and diagnostics go to the standard error. With `--debug` a failure is listed with
all its fields instead.
-/

namespace Script.CommandLine

/-- More fuel than a run can use up. -/
def fuel : Nat := 1000000000000000000

structure Invocation where
  file : String
  debug : Bool
  deriving DecidableEq, Inhabited

/-- Exactly one argument must name a file; `--debug` may stand anywhere. -/
def Invocation.ofArguments? (arguments : List String) : Option Invocation :=
  match arguments.filter (· ≠ "--debug") with
  | [file] => some ⟨file, arguments.contains "--debug"⟩
  | _ => none

structure Result where
  exit : Nat
  output : ByteArray
  errors : String
  deriving Inhabited

def usage : String := "usage: violet <file> [--debug]\n"

def warningLine (warning : Warning) : String :=
  let line := warning.line?.elim "" fun n => s!" line={n}"
  s!" WARN {warning.message}{line}\n"

/-- What a failure leaves on the standard error, and the exit code. -/
def conclude (debug : Bool) (failure : Failure) : Nat × String :=
  if debug then (exitFailure, failure.outline.render ++ "\n")
  else (failure.exitCode, String.join failure.diagnostics)

/-- Runs the script of an invocation. -/
def runScript (options : Options) (files : FileTree) (path : String) : Outcome × World :=
  match files.read path with
  | .error reason => (.failed (.unreadable path reason), .empty none)
  | .ok source =>
    let ctx : Context :=
      { file := path, debug := options.debug, maxDepth := options.maxDepth,
        library := .standard, files }
    let (outcome, m) := execute fuel ctx source (.first ctx (.empty none))
    (outcome, m.world)

/-- The whole command. `setting` is the setting of the call depth; warnings are shown if `log`. -/
def run (arguments : List String) (setting : Option String) (files : FileTree) (log : Bool) :
    Result :=
  match Invocation.ofArguments? arguments with
  | none => { exit := exitFailure, output := .empty, errors := usage }
  | some invocation =>
    let (options, warning) := Options.ofSetting invocation.debug setting
    let (outcome, world) := runScript options files invocation.file
    let warnings := if log then warning.toList ++ world.warnings.toList else []
    let (exit, diagnostics) := match outcome with
      | .failed failure => conclude options.debug failure
      | .finished => (exitSuccess, "")
      | .outOfFuel => (exitFatal, "")
    { exit, output := world.output.written,
      errors := String.join (warnings.map warningLine) ++ diagnostics }

end Script.CommandLine
