import Script.Eval.Machine
import Script.Eval.Operator

/-!
# Evaluating expressions

Operands are evaluated from left to right, a callee before its arguments. Calling a user function is
a parameter, so evaluation follows the tree of the expression and ends with it; an expression without
calls only looks names up.

A name may give a literal that is still thin. It is promoted wherever a value is computed with,
stored in a list or handed to a function, and only an expression that is nothing but the name shows
it.
-/

namespace Script

/-- Calls a user function with the values of its arguments. -/
abbrev Caller := UserFunction → List Value → Run Value

/-- Calls any value that can be called. -/
def callValue (call : Caller) (callee : Value) (arguments : List Value) : Run Value :=
  match callee with
  | .function f => call f arguments
  | .native f => Run.callNative f arguments
  | other => Run.raise (.notCallable other.display)

/-- The value of a connective: the left operand decides, or else the right one does. -/
def connect (op : Connective) (left right : Run Value) : Run Value := do
  let first ← Run.ofExcept (← left).condition
  match op, first with
  | .and, false => return .boolean false
  | .or, true => return .boolean true
  | _, _ => return .boolean (← Run.ofExcept (← right).condition)

mutual

def evaluate (call : Caller) : Expr → Run Value
  | .number n _ => return .integer n
  | .string s _ => return .string s
  | .boolean b _ => return .boolean b
  | .symbol name _ => Run.lookup name
  | .list elements _ => do return .list (← evaluateAll call elements)
  | .binary left operator right _ =>
    match operator.op with
    | .connective op => connect op (evaluate call left) (evaluate call right)
    | .operation op => do
      let first ← evaluate call left
      let second ← evaluate call right
      Run.ofExcept (op.apply operator.text first.promote second.promote)
  | .unary operator operand _ => do
    let value ← evaluate call operand
    Run.ofExcept (operator.op.apply operator.text value.promote)
  | .call callee arguments _ => do
    let f ← evaluate call callee
    let values ← evaluateAll call arguments
    callValue call f values
  | .index target index _ => do
    let value ← evaluate call target
    let position ← Run.ofExcept (← evaluate call index).asIndex
    Run.ofExcept (value.promote.get position)

/-- The promoted values of several expressions. -/
def evaluateAll (call : Caller) : List Expr → Run (List Value)
  | [] => return []
  | expr :: exprs => do
    let value ← evaluate call expr
    return value.promote :: (← evaluateAll call exprs)

end

def evaluateCondition (call : Caller) (expr : Expr) : Run Bool := do
  Run.ofExcept (← evaluate call expr).condition

/-- The declared type that an ascription means in the active scope: its name must be bound to a
type. -/
def resolve : TypeExpr → Run DeclaredType
  | .named name _ => do
    match (← get).lookup name with
    | .ok (.type t) => return .exactly t
    | _ => Run.raise (.notAType name)
  | .listOf element => do return .listOf (← resolve element)

/-- The declared type of an ascription that may be missing. -/
def resolve? : Option TypeExpr → Run (Option DeclaredType)
  | none => return none
  | some ascription => do return some (← resolve ascription)

end Script
