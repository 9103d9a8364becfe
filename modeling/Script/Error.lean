import Script.Source
import Script.Stmt.Kind
import Script.Text.Quoted

/-!
# Errors

Everything that can go wrong with a program. A cause says what happened and carries what its message
quotes; an error is a cause with the place it is reported at. An error raised inside a statement
takes the kind and the place of that statement, and once it has them it keeps them.
-/

namespace Script

inductive Cause where
  | unrecognisedToken (token : String)
  | unexpectedToken (token : String)
  | unexpectedTokenDetailed (token message : String)
  | numberParse (token : String)
  | variableNotDeclared (variableName : String)
  | constReassignment (variableName : String)
  | typeMatch (expected received : String)
  | argumentTypeMatch (argument expected received : String)
  | notAType (name : String)
  | unexpectedStatement (statement : StmtKind)
  | moduleNotFound (module : String)
  | importNotFound (name module : String)
  | circularImport (module : String)
  | moduleFailed (module message : String)
  | unexpectedArguments (expected received : Nat)
  | missingArguments (expected received : Nat)
  | notCallable (value : String)
  | invalidOperation (operator left right : String)
  | divisionByZero
  | integerOverflow
  | indexOutOfRange (index : Int) (length : Nat)
  | notIndexable (type : String)
  | callDepthExceeded (limit : Nat)
  | panic (message : String)
  deriving DecidableEq, Inhabited

inductive ErrorKind where
  | syntaxError
  | nameError
  | constViolation
  | typeMismatch
  | unexpectedStatement
  | importError
  | runtimeError
  | fatal
  deriving DecidableEq, Inhabited

def ErrorKind.name : ErrorKind → String
  | syntaxError => "SyntaxError"
  | nameError => "NameError"
  | constViolation => "ConstViolationError"
  | typeMismatch => "TypeMismatchError"
  | unexpectedStatement => "UnexpectedStatementError"
  | importError => "ImportError"
  | runtimeError => "RuntimeError"
  | fatal => "FatalEngineError"

namespace Cause

def kind : Cause → ErrorKind
  | unrecognisedToken .. | unexpectedToken .. | unexpectedTokenDetailed .. | numberParse .. =>
    .syntaxError
  | variableNotDeclared .. => .nameError
  | constReassignment .. => .constViolation
  | typeMatch .. | argumentTypeMatch .. | notAType .. => .typeMismatch
  | unexpectedStatement .. => .unexpectedStatement
  | moduleNotFound .. | importNotFound .. | circularImport .. | moduleFailed .. => .importError
  | unexpectedArguments .. | missingArguments .. | notCallable .. | invalidOperation ..
  | divisionByZero | integerOverflow | indexOutOfRange .. | notIndexable ..
  | callDepthExceeded .. => .runtimeError
  | panic .. => .fatal

def name : Cause → String
  | unrecognisedToken .. => "UnrecognisedToken"
  | unexpectedToken .. => "UnexpectedToken"
  | unexpectedTokenDetailed .. => "UnexpectedTokenDetailed"
  | numberParse .. => "NumberParseError"
  | variableNotDeclared .. => "VariableNotDeclared"
  | constReassignment .. => "ConstReassignment"
  | typeMatch .. => "TypeMatchError"
  | argumentTypeMatch .. => "ArgumentTypeMatchError"
  | notAType .. => "NotAType"
  | unexpectedStatement .. => "UnexpectedStatement"
  | moduleNotFound .. => "ModuleNotFound"
  | importNotFound .. => "ImportNotFound"
  | circularImport .. => "CircularImport"
  | moduleFailed .. => "ModuleFailed"
  | unexpectedArguments .. => "UnexpectedArguments"
  | missingArguments .. => "MissingArguments"
  | notCallable .. => "NotCallable"
  | invalidOperation .. => "InvalidOperation"
  | divisionByZero => "DivisionByZero"
  | integerOverflow => "IntegerOverflow"
  | indexOutOfRange .. => "IndexOutOfRange"
  | notIndexable .. => "NotIndexable"
  | callDepthExceeded .. => "CallDepthExceeded"
  | panic .. => "Panic"

def message : Cause → String
  | unrecognisedToken token => s!"unrecognised token: {quote token}"
  | unexpectedToken token => s!"unexpected token: {quote token}"
  | unexpectedTokenDetailed token message => s!"unexpected token ({message}): {quote token}"
  | numberParse token => s!"error parsing number: {quote token}"
  | variableNotDeclared name => s!"variable {quote name} is not defined"
  | constReassignment name => s!"constant variable {quote name} cannot be reassigned"
  | typeMatch expected received =>
    s!"types do not match: expected {quote expected}, received {quote received}"
  | argumentTypeMatch argument expected received =>
    s!"argument {quote argument} types do not match: expected {quote expected}, " ++
      s!"received {quote received}"
  | notAType name => s!"{quote name} is not a type"
  | unexpectedStatement statement => s!"unexpected {statement.name} statement"
  | moduleNotFound module => s!"module {quote module} does not exist"
  | importNotFound name module => s!"failed to import {quote name} from {quote module}"
  | circularImport module => s!"circular import of module {quote module}"
  | moduleFailed module message => s!"failed to load module {quote module}: {message}"
  | unexpectedArguments expected received =>
    s!"unexpected arguments: expected {expected}, received {received}"
  | missingArguments expected received =>
    s!"missing arguments: expected {expected}, received {received}"
  | notCallable value => s!"{value} is not callable"
  | invalidOperation operator left right =>
    s!"unsupported operand types for {operator}: {quote left} and {quote right}"
  | divisionByZero => "division by zero"
  | integerOverflow => "integer overflow"
  | indexOutOfRange index length => s!"index {index} out of range for length {length}"
  | notIndexable type => s!"{quote type} is not indexable"
  | callDepthExceeded limit => s!"maximum call depth of {limit} exceeded"
  | panic message => message

end Cause

structure Error where
  cause : Cause
  position : Position
  /-- The statement the error is attributed to. -/
  statement : Option StmtKind
  deriving DecidableEq, Inhabited

namespace Error

def located (cause : Cause) (position : Position) : Error := ⟨cause, position, none⟩

/-- An error that has not yet reached a statement. -/
def ofCause (cause : Cause) : Error := .located cause .unknown

def message (e : Error) : String := e.cause.message

def kind (e : Error) : ErrorKind := e.cause.kind

def isFatal (e : Error) : Bool := e.kind = .fatal

/-- Attributes the error to a statement, unless it already is to one. -/
def atStatement (e : Error) (kind : StmtKind) (position : Position) : Error :=
  match e.statement with
  | some _ => e
  | none => ⟨e.cause, position, some kind⟩

end Error

end Script
