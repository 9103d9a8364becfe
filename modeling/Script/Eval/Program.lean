import Script.Eval.Module
import Script.Failure

/-!
# Running programs

A program is a module whose root scope has a function `main`. Its top level runs first, then `main`
is called with a list that holds the name of the file. An error of the call that belongs to no
statement is attributed to the declaration of `main`.
-/

namespace Script

/-- How the run of a program ends. -/
inductive Outcome where
  | finished
  | failed (failure : Failure)
  | outOfFuel
  deriving Inhabited

def Outcome.ofStop : Stop → Outcome
  | .failed e => .failed (.program e)
  | .outOfFuel => .outOfFuel

def callMain (ctx : Context) (fuel : Nat) (main : Value) : Run Value :=
  let call := callValue (callFunction ctx fuel) main [.list [.string ctx.file]]
  match main with
  | .function f =>
    if ctx.debug then call else call.mapError fun e => e.atStatement .function f.position
  | _ => call

/-- Runs the top level of a source text and then its `main`. -/
def execute (fuel : Nat) (ctx : Context) (source : String) (m : Machine) : Outcome × Machine :=
  match parseSource source ctx.file with
  | .error errors => (.failed (.syntaxErrors errors), m)
  | .ok program =>
    match runModule fuel ctx program.statements m with
    | .error stop m => (.ofStop stop, m)
    | .ok _ m =>
      match m.lookupRoot "main" with
      | .error _ => (.failed .missingEntryPoint, m)
      | .ok main =>
        match callMain ctx fuel main m with
        | .error stop m => (.ofStop stop, m)
        | .ok _ m => (.finished, m)

end Script
