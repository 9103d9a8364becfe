import Script.Expr
import Script.Stmt.Kind

/-!
# Statements

The syntax tree of a program. Ascriptions stay names here; what a name means is looked up when the
annotated statement runs. An `else` leads to a block or to a further `if`, which is a statement with
its own place.
-/

namespace Script

/-- A name with the line it was written on. -/
structure Identifier where
  name : String
  line : Nat
  deriving DecidableEq, Inhabited

inductive TypeExpr where
  | named (name : String) (position : Position)
  | listOf (element : TypeExpr)
  deriving DecidableEq, Inhabited

namespace TypeExpr

def text : TypeExpr → String
  | named name _ => name
  | listOf element => element.text ++ "[]"

/-- Where the name inside the ascription stands. -/
def position : TypeExpr → Position
  | named _ position => position
  | listOf element => element.position

end TypeExpr

structure Parameter where
  name : Identifier
  ascription : Option TypeExpr
  deriving DecidableEq, Inhabited

mutual

inductive Stmt where
  | expression (value : Expr) (span : Span)
  | importNames (names : List Identifier) (path : List String) (span : Span)
  | declaration (name : Identifier) (constant global : Bool) (ascription : Option TypeExpr)
      (value : Expr) (span : Span)
  | reassignment (name : Identifier) (value : Expr) (span : Span)
  | conditional (branch : Conditional)
  | loop (condition : Expr) (body : Block) (span : Span)
  | function (name : Identifier) (parameters : List Parameter) (returns : Option TypeExpr)
      (body : Block) (span : Span)
  | returnValue (value : Option Expr) (span : Span)

inductive Conditional where
  | mk (condition : Expr) (body : Block) (otherwise : Otherwise) (span : Span)

inductive Otherwise where
  | nothing
  | block (body : Block)
  | conditional (branch : Conditional)

inductive Block where
  | mk (statements : List Stmt) (span : Span)

end

instance : Inhabited Block := ⟨.mk [] default⟩

instance : Inhabited Stmt := ⟨.returnValue none default⟩

def Block.statements : Block → List Stmt
  | mk statements _ => statements

def Block.span : Block → Span
  | mk _ span => span

def Conditional.span : Conditional → Span
  | mk _ _ _ span => span

namespace Stmt

def span : Stmt → Span
  | expression _ span | importNames _ _ span | declaration _ _ _ _ _ span
  | reassignment _ _ span | loop _ _ span | function _ _ _ _ span | returnValue _ span => span
  | conditional branch => branch.span

def kind : Stmt → StmtKind
  | expression .. => .expression
  | importNames .. => .importNames
  | declaration .. => .declaration
  | reassignment .. => .reassignment
  | conditional .. => .conditional
  | loop .. => .loop
  | function .. => .function
  | returnValue .. => .returnValue

end Stmt

/-- A module path as written in an import. -/
def dotted (path : List String) : String :=
  ".".intercalate path

/-- Whether a module path names a module of the standard library. -/
def isStandard (path : List String) : Bool :=
  path.head? == some "std"

end Script
