import Script.Integer
import Script.Token

/-!
# Expressions

The syntax tree of an expression. Binary operators come in two sorts: a connective may leave its
right operand unevaluated, an operation needs the values of both. An operator keeps the text and the
place it was written at.
-/

namespace Script

inductive Connective where
  | and
  | or
  deriving DecidableEq, Inhabited

inductive Operation where
  | equals
  | notEquals
  | less
  | lessEquals
  | greater
  | greaterEquals
  | add
  | subtract
  | multiply
  | divide
  | remainder
  deriving DecidableEq, Inhabited

inductive BinaryOp where
  | connective (op : Connective)
  | operation (op : Operation)
  deriving DecidableEq, Inhabited

inductive UnaryOp where
  | negate
  | not
  deriving DecidableEq, Inhabited

/-- An operator as written. -/
structure Operator (α : Type) where
  op : α
  text : String
  span : Span
  deriving DecidableEq, Inhabited

inductive Expr where
  | number (value : Integer) (span : Span)
  | string (value : String) (span : Span)
  | boolean (value : Bool) (span : Span)
  | symbol (name : String) (span : Span)
  | list (elements : List Expr) (span : Span)
  | binary (left : Expr) (operator : Operator BinaryOp) (right : Expr) (span : Span)
  | unary (operator : Operator UnaryOp) (operand : Expr) (span : Span)
  | call (callee : Expr) (arguments : List Expr) (span : Span)
  | index (target index : Expr) (span : Span)
  deriving Inhabited

def Expr.span : Expr → Span
  | number _ span | string _ span | boolean _ span | symbol _ span | list _ span
  | binary _ _ _ span | unary _ _ span | call _ _ span | index _ _ span => span

namespace BinaryOp

def ofKind? : TokenKind → Option BinaryOp
  | .and => some (.connective .and)
  | .or => some (.connective .or)
  | .equals => some (.operation .equals)
  | .notEquals => some (.operation .notEquals)
  | .less => some (.operation .less)
  | .lessEquals => some (.operation .lessEquals)
  | .greater => some (.operation .greater)
  | .greaterEquals => some (.operation .greaterEquals)
  | .plus => some (.operation .add)
  | .dash => some (.operation .subtract)
  | .star => some (.operation .multiply)
  | .slash => some (.operation .divide)
  | .percent => some (.operation .remainder)
  | _ => none

def kind : BinaryOp → TokenKind
  | .connective .and => .and
  | .connective .or => .or
  | .operation .equals => .equals
  | .operation .notEquals => .notEquals
  | .operation .less => .less
  | .operation .lessEquals => .lessEquals
  | .operation .greater => .greater
  | .operation .greaterEquals => .greaterEquals
  | .operation .add => .plus
  | .operation .subtract => .dash
  | .operation .multiply => .star
  | .operation .divide => .slash
  | .operation .remainder => .percent

theorem ofKind?_kind (op : BinaryOp) : ofKind? op.kind = some op := by
  cases op with
  | connective op => cases op <;> rfl
  | operation op => cases op <;> rfl

/-- The operation that a compound assignment applies. -/
def ofCompound? : TokenKind → Option BinaryOp
  | .plusEquals => some (.operation .add)
  | .minusEquals => some (.operation .subtract)
  | .starEquals => some (.operation .multiply)
  | .slashEquals => some (.operation .divide)
  | _ => none

end BinaryOp

namespace UnaryOp

def ofKind? : TokenKind → Option UnaryOp
  | .dash => some .negate
  | .not => some .not
  | _ => none

def kind : UnaryOp → TokenKind
  | .negate => .dash
  | .not => .not

theorem ofKind?_kind (op : UnaryOp) : ofKind? op.kind = some op := by
  cases op <;> rfl

end UnaryOp

end Script
