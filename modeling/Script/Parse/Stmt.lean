import Script.Parse.Expr
import Script.Stmt

/-!
# Reading statements

A statement begins with its keyword. Without one it is an assignment if a name and an assignment
operator come first, and else an expression. A compound assignment `x += e` is read as `x = x + e`
with `e` as one operand.
-/

namespace Script.Parser

def identifier : Parser Identifier := do
  let token ← expect .identifier
  return ⟨token.text, token.span.start.line⟩

/-- The brackets behind an element type, at most as many as the bound. -/
def typeSuffixes : Nat → TypeExpr → Parser TypeExpr
  | 0, element => return element
  | bound + 1, element => do
    match ← kind with
    | .openBracket =>
      skip
      let _ ← expect .closeBracket
      typeSuffixes bound (.listOf element)
    | .identifier => unexpected
    | _ => return element

def typeExpr : Parser TypeExpr := do
  let token ← expect .identifier
  bounded fun bound => typeSuffixes bound (.named token.text token.span.start)

/-- An ascription that a token of the kind given introduces, if it is there. -/
def ascription? (introducer : TokenKind) : Parser (Option TypeExpr) := do
  if (← kind) = introducer then
    skip
    return some (← typeExpr)
  else
    return none

/-- A declaration from its `let` or `const` on; `start` is where the statement begins. -/
def declaration (start : Position) (global : Bool) : Parser Stmt := do
  let opening ← advance
  let name ← expectBecause .identifier "expected identifier during variable declaration"
  let ascription ← ascription? .colon
  let _ ← expectBecause .assignment "expected '=' during variable declaration"
  let value ← expr
  let closing ← expect .semicolon
  return .declaration ⟨name.text, name.span.start.line⟩ (opening.kind = .wordConst) global ascription
    value ⟨start, closing.span.stop⟩

def globalDeclaration : Parser Stmt := do
  let start := (← advance).span.start
  match ← kind with
  | .wordLet | .wordConst => declaration start true
  | _ => unexpectedBecause "expected 'let' or 'const' after 'global'"

/-- The text of the operator inside a compound assignment. -/
def simpleOperatorText (text : String) : String :=
  String.ofList (text.toList.reverse.dropWhile (· == '=')).reverse

def reassignment : Parser Stmt := do
  let name ← advance
  let operator ← advance
  let right ← expr
  let value := match BinaryOp.ofCompound? operator.kind with
    | some op =>
      .binary (.symbol name.text name.span)
        ⟨op, simpleOperatorText operator.text, operator.span⟩ right
        ⟨name.span.start, right.span.stop⟩
    | none => right
  let closing ← expect .semicolon
  return .reassignment ⟨name.text, name.span.start.line⟩ value ⟨name.span.start, closing.span.stop⟩

/-- One or more items with a separator between them, at most as many as the bound and one. -/
def separated (item : Parser α) (separator : TokenKind) : Nat → Parser (List α)
  | 0 => return [← item]
  | bound + 1 => do
    let a ← item
    if (← kind) = separator then
      skip
      return a :: (← separated item separator bound)
    else
      return [a]

def importNames : Parser Stmt := do
  let start := (← advance).span.start
  let names ← bounded (separated identifier .comma)
  let _ ← expectBecause .wordFrom "expected 'from' after imported names"
  let path ← bounded (separated (return (← expect .identifier).text) .dot)
  let closing ← expect .semicolon
  return .importNames names path ⟨start, closing.span.stop⟩

/-- The statements up to and including the brace that closes their block. The bound is at least the
number of tokens left. -/
def blockStatements (stmt : Parser Stmt) : Nat → Parser (List Stmt × Token)
  | 0 => unexpectedBecause "unterminated block"
  | bound + 1 => do
    let next ← current
    match next.kind with
    | .closeCurly =>
      skip
      return ([], next)
    | .endOfFile => unexpectedBecause "unterminated block"
    | _ =>
      let first ← stmt
      let (rest, closing) ← blockStatements stmt bound
      return (first :: rest, closing)

def block (stmt : Parser Stmt) (bound : Nat) : Parser Block := do
  let opening ← expectBecause .openCurly "expected '\x7b' to open a block"
  let (statements, closing) ← blockStatements stmt bound
  return .mk statements ⟨opening.span.start, closing.span.stop⟩

/-- A conditional from its `if` on. The bound is at least the number of tokens left. -/
def conditional (stmt : Parser Stmt) : Nat → Parser Conditional
  | 0 => unexpected
  | bound + 1 => do
    let start := (← advance).span.start
    let condition ← expr
    let body ← block stmt bound
    if (← kind) = .wordElse then
      skip
      if (← kind) = .wordIf then
        let branch ← conditional stmt bound
        return .mk condition body (.conditional branch) ⟨start, branch.span.stop⟩
      else
        let otherwise ← block stmt bound
        return .mk condition body (.block otherwise) ⟨start, otherwise.span.stop⟩
    else
      return .mk condition body .nothing ⟨start, body.span.stop⟩

def loop (stmt : Parser Stmt) (bound : Nat) : Parser Stmt := do
  let start := (← advance).span.start
  let condition ← expr
  let body ← block stmt bound
  return .loop condition body ⟨start, body.span.stop⟩

def parameter : Parser Parameter := do
  let name ← identifier
  return ⟨name, ← ascription? .colon⟩

def function (stmt : Parser Stmt) (bound : Nat) : Parser Stmt := do
  let start := (← advance).span.start
  let name ← identifier
  let _ ← expect .openParen
  let (parameters, _) ← items parameter .closeParen "expected ',' between parameters" bound
  let returns ← ascription? .arrow
  let body ← block stmt bound
  return .function name parameters returns body ⟨start, body.span.stop⟩

/-- The value of a `return`, which may have none. -/
def result? : Parser (Option Expr) := do
  if (← kind) = .semicolon then
    return none
  else
    return some (← expr)

def returnValue : Parser Stmt := do
  let start := (← advance).span.start
  let value ← result?
  let closing ← expect .semicolon
  return .returnValue value ⟨start, closing.span.stop⟩

def expression : Parser Stmt := do
  let value ← expr
  let _ ← expect .semicolon
  return .expression value value.span

/-- Whether the tokens begin with a name and an assignment operator. -/
def startsReassignment : Parser Bool := do
  let next ← nextKind
  return (← kind) = .identifier ∧ (next = .assignment ∨ (BinaryOp.ofCompound? next).isSome)

/-- A statement of at most as many tokens as the bound. -/
def stmtWithin : Nat → Parser Stmt
  | 0 => unexpected
  | bound + 1 => do
    match ← kind with
    | .wordLet | .wordConst => declaration (← position) false
    | .wordGlobal => globalDeclaration
    | .wordImport => importNames
    | .wordIf => return .conditional (← conditional (stmtWithin bound) (bound + 1))
    | .wordWhile => loop (stmtWithin bound) bound
    | .wordFn => function (stmtWithin bound) bound
    | .wordReturn => returnValue
    | _ => if ← startsReassignment then reassignment else expression

def stmt : Parser Stmt :=
  bounded stmtWithin

end Script.Parser
