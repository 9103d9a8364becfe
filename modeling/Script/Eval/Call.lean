import Script.Eval.Stmt

/-!
# Calling functions

The body of a function runs in a scope inside the active scope of its caller, so names that it does
not bind itself are resolved there. A call is refused before it begins when its arguments do not fit
or too many calls are in progress.
-/

namespace Script

namespace UserFunction

/-- Checks the arguments against the types of their parameters, from left to right. -/
def checkTypes : List (Identifier × Option DeclaredType) → List Value → Except Cause Unit
  | (name, some declared) :: parameters, argument :: arguments =>
    if declared.accepts argument then checkTypes parameters arguments
    else .error (.argumentTypeMatch name.name declared.text argument.typeOf.name)
  | (_, none) :: parameters, _ :: arguments => checkTypes parameters arguments
  | _, _ => .ok ()

def checkArguments (f : UserFunction) (arguments : List Value) : Except Cause Unit := do
  checkArity f.parameters.length arguments.length
  checkTypes f.parameters arguments

end UserFunction

/-- Binds the arguments to the parameters in the active scope. -/
def bindParameters : List (Identifier × Option DeclaredType) → List Value → Run Unit
  | (name, _) :: parameters, argument :: arguments => do
    let scope := (← get).active
    Run.updateArena fun arena => arena.bindParameter scope name.name argument
    bindParameters parameters arguments
  | _, _ => return

/-- A body that ends without returning gives `Void`, which a declared type must allow. -/
def resultOf (f : UserFunction) : Flow → Run Value
  | .returned value => return value
  | .next => do
    if let some declared := f.returns then
      Run.ofExcept (declared.check .void)
    return .void

/-- Calls a function. A call takes one unit of fuel from the calls and the loops inside of it. -/
def callFunction (ctx : Context) : Nat → Caller
  | 0, _, _ => throw .outOfFuel
  | fuel + 1, f, arguments => do
    Run.ofExcept (f.checkArguments arguments)
    let m ← get
    if m.depth ≥ ctx.maxDepth then
      Run.raise (.callDepthExceeded ctx.maxDepth)
    let flow ← Run.deeper f <| Run.withScope m.active do
      bindParameters f.parameters arguments
      runStmts ctx (callFunction ctx fuel) fuel f f.body.statements
    resultOf f flow

end Script
