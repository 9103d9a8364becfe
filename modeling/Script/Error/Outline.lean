import Script.Error
import Script.Text.Outline

/-!
# Outlines of errors

An error with all its fields, as debug mode lists it.
-/

namespace Script

private def textOutline (s : String) : Outline := .leaf (quote s)

private def numberOutline (n : Nat) : Outline := .leaf (toString n)

namespace Cause

/-- The labelled parts of a cause, in the order they are listed. -/
def parts : Cause → List (String × Outline)
  | unrecognisedToken token | unexpectedToken token | numberParse token =>
    [("token", textOutline token)]
  | unexpectedTokenDetailed token message =>
    [("token", textOutline token), ("message", textOutline message)]
  | variableNotDeclared name | constReassignment name => [("variable", textOutline name)]
  | typeMatch expected received =>
    [("expected", textOutline expected), ("received", textOutline received)]
  | argumentTypeMatch argument expected received =>
    [("argument", textOutline argument), ("expected", textOutline expected),
      ("received", textOutline received)]
  | notAType name => [("name", textOutline name)]
  | unexpectedStatement statement => [("statement", .leaf statement.name)]
  | moduleNotFound module | circularImport module => [("module", textOutline module)]
  | importNotFound name module => [("name", textOutline name), ("module", textOutline module)]
  | moduleFailed module message =>
    [("module", textOutline module), ("message", textOutline message)]
  | unexpectedArguments expected received | missingArguments expected received =>
    [("expected", numberOutline expected), ("received", numberOutline received)]
  | notCallable value => [("value", textOutline value)]
  | invalidOperation operator left right =>
    [("operator", textOutline operator), ("left", textOutline left), ("right", textOutline right)]
  | divisionByZero | integerOverflow => []
  | indexOutOfRange index length =>
    [("index", .leaf (toString index)), ("length", numberOutline length)]
  | notIndexable type => [("type_", textOutline type)]
  | callDepthExceeded limit => [("limit", numberOutline limit)]
  | panic message => [("message", textOutline message)]

def outline (cause : Cause) : Outline :=
  match cause.parts with
  | [] => .leaf cause.name
  | parts => .record cause.name parts

end Cause

def Position.outline (p : Position) : Outline :=
  .record "Position" [
    ("offset", numberOutline p.offset), ("line", numberOutline p.line), ("file", textOutline p.file)]

def Error.outline (e : Error) : Outline :=
  .record "Error" [
    ("internal_error", e.cause.outline),
    ("position", e.position.outline),
    ("statement", .optional (e.statement.map fun kind => .leaf kind.name))]

end Script
