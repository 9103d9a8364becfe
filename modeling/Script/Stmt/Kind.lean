/-!
# Kinds of statements

The names under which diagnostics speak of statements.
-/

namespace Script

inductive StmtKind where
  | expression
  | block
  | importNames
  | declaration
  | reassignment
  | conditional
  | loop
  | function
  | returnValue
  deriving DecidableEq, Inhabited

namespace StmtKind

def all : List StmtKind :=
  [expression, block, importNames, declaration, reassignment, conditional, loop, function,
    returnValue]

def name : StmtKind → String
  | expression => "ExpressionStmt"
  | block => "BlockStmt"
  | importNames => "ImportStmt"
  | declaration => "VarDeclStmt"
  | reassignment => "ReassignmentStmt"
  | conditional => "IfStmt"
  | loop => "WhileStmt"
  | function => "FnDeclStmt"
  | returnValue => "ReturnStmt"

def ofName? (name : String) : Option StmtKind :=
  all.find? fun kind => kind.name = name

end StmtKind

end Script
