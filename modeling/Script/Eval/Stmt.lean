import Script.Eval.Expr

/-!
# Running statements

A statement of a function body goes on to the next one or returns from the function with a value.
Once it has returned nothing more of the body runs. The blocks of conditionals and loops run in a
scope of their own. Imports, function declarations and blocks of their own are not allowed in a body.
-/

namespace Script

/-- How a statement ends when it does not fail. -/
inductive Flow where
  | next
  | returned (value : Value)
  deriving Inhabited

/-- Repeats the body while the condition holds and the body does not return. Every turn takes fuel. -/
def repeatWhile (condition : Run Bool) (body : Run Flow) : Nat → Run Flow
  | 0 => throw .outOfFuel
  | fuel + 1 => fun m =>
    match condition m with
    | .error e m => .error e m
    | .ok false m => .ok .next m
    | .ok true m =>
      match body m with
      | .error e m => .error e m
      | .ok (.returned value) m => .ok (.returned value) m
      | .ok .next m => repeatWhile condition body fuel m

def runDeclaration (call : Caller) (name : Identifier) (constant global : Bool)
    (ascription : Option TypeExpr) (value : Expr) : Run Unit := do
  let value := (← evaluate call value).promote
  if let some ascription := ascription then
    Run.ofExcept ((← resolve ascription).check value)
  if global then Run.declareGlobal name value constant
  else Run.declare (← get).active name value constant

def runReassignment (call : Caller) (name : Identifier) (value : Expr) : Run Unit := do
  Run.reassign name.name (← evaluate call value)

/-- Returns from `f`. The value counts for the type of its results once it has been evaluated. -/
def runReturn (call : Caller) (f : UserFunction) (value : Option Expr) : Run Flow := do
  let value ← match value with
    | some expr => Value.promote <$> evaluate call expr
    | none => pure .void
  Run.checkResult f value
  return .returned value

section

variable (ctx : Context) (call : Caller) (fuel : Nat) (f : UserFunction)

mutual

/-- Runs a statement in the body of `f`. -/
def runStmt : Stmt → Run Flow
  | .declaration name constant global ascription value _ => do
    runDeclaration call name constant global ascription value
    return .next
  | .reassignment name value _ => do
    runReassignment call name value
    return .next
  | .returnValue value _ => runReturn call f value
  | .expression value _ => do
    let _ ← evaluate call value
    return .next
  | .conditional branch => runConditional branch
  | .loop condition body _ => repeatWhile (evaluateCondition call condition) (runBlock body) fuel
  | .importNames .. => Run.raise (.unexpectedStatement .importNames)
  | .function .. => Run.raise (.unexpectedStatement .function)

def runConditional : Conditional → Run Flow
  | .mk condition body otherwise _ => do
    if ← evaluateCondition call condition then runBlock body else runOtherwise otherwise

def runOtherwise : Otherwise → Run Flow
  | .nothing => return .next
  | .block body => runBlock body
  | .conditional branch => runConditional branch

def runBlock : Block → Run Flow
  | .mk statements _ => do
    let parent := (← get).active
    Run.withScope parent (runStmts statements)

def runStmts : List Stmt → Run Flow
  | [] => return .next
  | stmt :: stmts => do
    match ← Run.attributed ctx stmt (runStmt stmt) with
    | .next => runStmts stmts
    | .returned value => return .returned value

end

end

end Script
