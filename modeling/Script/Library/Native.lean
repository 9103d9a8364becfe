import Script.Sink
import Script.Text.Uppercase
import Script.Value

/-!
# Native functions

What the functions of the host do. They take their arguments as they are: a thin literal is not the
list, number or string that a native asks for. Only `print` has an effect, and its only failure is
that of the sink it writes to. A range can be longer than any list; then there is no result.
-/

namespace Script

/-- Too many arguments are refused before too few. -/
def checkArity (expected received : Nat) : Except Cause Unit :=
  if expected < received then .error (.unexpectedArguments expected received)
  else if received < expected then .error (.missingArguments expected received)
  else .ok ()

namespace Native

/-- The number of arguments, where it is fixed. -/
def arity? : Native → Option Nat
  | print => none
  | listPush => some 2
  | listLen | listRange | stringLen | stringOf | stringUpper => some 1

/-- The result for arguments that fit. -/
def result? : Native → List Value → Option Value
  | print, _ => some .void
  | listLen, [.list items] => some (.integer (.ofLength items.length))
  | listPush, [.list items, value] => some (.list (items ++ [value]))
  | listRange, [.integer n] =>
    some (.list ((List.range n.val.toNat).map fun i => .integer (.ofLength i)))
  | stringLen, [.string s] => some (.integer (.ofLength s.length))
  | stringOf, [value] => some (.string value.display)
  | stringUpper, [.string s] => some (.string (uppercase s))
  | _, _ => none

/-- The most values a list can hold: a value takes 32 bytes, and a list less than `2 ^ 63`. -/
def listCapacity : Nat := 9223372036854775807 / 32

/-- Whether a list is asked for that no memory can hold. -/
def overflows : Native → List Value → Bool
  | listRange, [.integer n] => listCapacity < n.val.toNat
  | _, _ => false

/-- What the first argument is called, and the type it must have. -/
def subject : Native → String × ValueType
  | listLen | listPush => ("list", .list)
  | listRange => ("end", .integer)
  | print | stringLen | stringOf | stringUpper => ("string", .string)

def result (f : Native) (arguments : List Value) : Except Cause Value := do
  if let some expected := f.arity? then
    checkArity expected arguments.length
  match f.result? arguments with
  | some value => return value
  | none =>
    let (argument, expected) := f.subject
    throw (.argumentTypeMatch argument expected.name (arguments.headD .void).typeOf.name)

/-- One line: the texts of the values with blanks between them. -/
def line (arguments : List Value) : String :=
  " ".intercalate (arguments.map Value.display) ++ "\n"

/-- The failure of `print`. -/
def writeFailed : Cause :=
  .panic s!"failed to write output: {Sink.full}"

/-- Calls a native that may write to a sink, with arguments that do not overflow. -/
def call (f : Native) (arguments : List Value) (sink : Sink) : Except Cause Value × Sink :=
  match f with
  | print =>
    match sink.write (line arguments) with
    | (sink, true) => (.ok .void, sink)
    | (sink, false) => (.error writeFailed, sink)
  | f => (f.result arguments, sink)

end Native

end Script
