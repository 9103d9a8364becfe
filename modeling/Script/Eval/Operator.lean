import Script.Value

/-!
# Operators on values

What the operations of the language give for values, and where they refuse: a division by zero, a
result that is no integer of the language, operands of types that the operation does not know. None
of them looks at anything but its operands.
-/

namespace Script

/-- The result of an operation, if it is an integer of the language. -/
def exactResult (result : Option Integer) : Except Cause Value :=
  match result with
  | some n => .ok (.integer n)
  | none => .error .integerOverflow

/-- The result of a division, which must not be by zero. -/
def divisionResult (divisor : Integer) (result : Option Integer) : Except Cause Value :=
  if divisor.val = 0 then .error .divisionByZero else exactResult result

/-- Applies an operation; `symbol` is how it is written. -/
def Operation.apply (op : Operation) (symbol : String) (left right : Value) : Except Cause Value :=
  match op, left, right with
  | equals, _, _ => .ok (.boolean (left.equals right))
  | notEquals, _, _ => .ok (.boolean !(left.equals right))
  | add, .integer a, .integer b => exactResult (a.add? b)
  | subtract, .integer a, .integer b => exactResult (a.sub? b)
  | multiply, .integer a, .integer b => exactResult (a.mul? b)
  | divide, .integer a, .integer b => divisionResult b (a.quot? b)
  | remainder, .integer a, .integer b => divisionResult b (a.rem? b)
  | add, .string a, .string b => .ok (.string (a ++ b))
  | add, .list a, .list b => .ok (.list (a ++ b))
  | less, .integer a, .integer b => .ok (.boolean (a.val < b.val))
  | lessEquals, .integer a, .integer b => .ok (.boolean (a.val ≤ b.val))
  | greater, .integer a, .integer b => .ok (.boolean (b.val < a.val))
  | greaterEquals, .integer a, .integer b => .ok (.boolean (b.val ≤ a.val))
  | less, .string a, .string b => .ok (.boolean (a < b))
  | lessEquals, .string a, .string b => .ok (.boolean (a ≤ b))
  | greater, .string a, .string b => .ok (.boolean (b < a))
  | greaterEquals, .string a, .string b => .ok (.boolean (b ≤ a))
  | _, _, _ => .error (.invalidOperation symbol left.typeOf.name right.typeOf.name)

def UnaryOp.apply (op : UnaryOp) (symbol : String) (value : Value) : Except Cause Value :=
  match op, value with
  | negate, .integer n => exactResult n.neg?
  | not, .boolean b => .ok (.boolean !b)
  | _, _ => .error (.invalidOperation symbol "nothing" value.typeOf.name)

namespace Value

/-- The truth of a condition. -/
def condition (value : Value) : Except Cause Bool :=
  match value.promote with
  | boolean b => .ok b
  | other => .error (.typeMatch ValueType.boolean.name other.typeOf.name)

/-- A value as an index. -/
def asIndex (value : Value) : Except Cause Integer :=
  match value.promote with
  | integer n => .ok n
  | other => .error (.typeMatch ValueType.integer.name other.typeOf.name)

/-- The item of a list at an index. -/
def itemAt (items : List α) (index : Integer) : Except Cause α :=
  match if 0 ≤ index.val then items[index.val.toNat]? else none with
  | some item => .ok item
  | none => .error (.indexOutOfRange index.val items.length)

/-- An item of a list, or a character of a string as a string. -/
def get (value : Value) (index : Integer) : Except Cause Value :=
  match value with
  | list items => itemAt items index
  | string s => (itemAt s.toList index).map fun c => .string (String.singleton c)
  | other => .error (.notIndexable other.typeOf.name)

end Value

end Script
