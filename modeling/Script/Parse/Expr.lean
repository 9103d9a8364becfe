import Script.Expr
import Script.Parse.Cursor

/-!
# Reading expressions

An expression is an operand followed by operators and postfix forms, as long as these bind tighter
than what the expression stands in. `&&` and `||` bind loosest and share one level; above them come
the comparisons, then sums, products, prefix operators, and last calls and indices. Operators of one
level group to the left.

Reading is bounded by the number of tokens left. Every operand and every operator takes at least one
token, so the bound is never what ends an expression: with no token left, only the end of the file
can be found.
-/

namespace Script

/-- How tightly a token binds what comes before it. -/
inductive Power where
  | lowest
  | logical
  | relational
  | additive
  | multiplicative
  | unary
  | call
  | primary
  deriving DecidableEq, Inhabited

namespace Power

def rank : Power → Nat
  | lowest => 0
  | logical => 1
  | relational => 2
  | additive => 3
  | multiplicative => 4
  | unary => 5
  | call => 6
  | primary => 7

instance : LE Power := ⟨fun a b => a.rank ≤ b.rank⟩

instance (a b : Power) : Decidable (a ≤ b) := inferInstanceAs (Decidable (a.rank ≤ b.rank))

/-- The power of a token that follows a complete operand. A token that can only begin an operand
binds tightest, so that it is looked at, and refused, wherever it stands. -/
def ofKind : TokenKind → Power
  | .and | .or => logical
  | .equals | .notEquals | .less | .lessEquals | .greater | .greaterEquals => relational
  | .plus | .dash => additive
  | .star | .slash | .percent => multiplicative
  | .openParen | .openBracket => call
  | .number | .string | .identifier | .wordTrue | .wordFalse | .not => primary
  | _ => lowest

end Power

/-- What a token does to the operand before it. -/
inductive Continuation where
  | binary (op : BinaryOp)
  | call
  | index
  deriving DecidableEq

def Continuation.ofKind? : TokenKind → Option Continuation
  | .openParen => some .call
  | .openBracket => some .index
  | kind => (BinaryOp.ofKind? kind).map .binary

namespace Parser

/-- An expression at the front of the tokens, up to an operator of the power given. -/
abbrev ExprReader := Power → Parser Expr

def expressions (inner : ExprReader) (close : TokenKind) (bound : Nat) :
    Parser (List Expr × Token) :=
  items (inner .lowest) close "expected ',' between items" bound

/-- An operand without the postfix forms behind it. -/
def operand (inner : ExprReader) (bound : Nat) : Parser Expr := do
  let token ← current
  match token.kind with
  | .number =>
    match Integer.ofText? token.text with
    | some value =>
      skip
      return .number value token.span
    | none => failWith fun token => .numberParse token.text
  | .identifier =>
    skip
    return .symbol token.text token.span
  | .string =>
    skip
    return .string token.text token.span
  | .wordTrue =>
    skip
    return .boolean true token.span
  | .wordFalse =>
    skip
    return .boolean false token.span
  | .openParen =>
    skip
    let value ← inner .lowest
    let _ ← expect .closeParen
    return value
  | .openBracket =>
    skip
    let (elements, closing) ← expressions inner .closeBracket bound
    return .list elements ⟨token.span.start, closing.span.stop⟩
  | kind =>
    match UnaryOp.ofKind? kind with
    | some op =>
      skip
      let right ← inner .unary
      return .unary ⟨op, token.text, token.span⟩ right ⟨token.span.start, right.span.stop⟩
    | none => unexpected

/-- Takes in the operators and postfix forms behind an operand, while they bind tighter than
`power`. -/
def extend (inner : ExprReader) (power : Power) : Nat → Expr → Parser Expr
  | 0, left => return left
  | bound + 1, left => do
    let token ← current
    if Power.ofKind token.kind ≤ power then return left
    match Continuation.ofKind? token.kind with
    | none => unexpected
    | some (.binary op) =>
      skip
      let right ← inner (.ofKind token.kind)
      extend inner power bound
        (.binary left ⟨op, token.text, token.span⟩ right ⟨left.span.start, right.span.stop⟩)
    | some .call =>
      skip
      let (arguments, closing) ← expressions inner .closeParen bound
      extend inner power bound (.call left arguments ⟨left.span.start, closing.span.stop⟩)
    | some .index =>
      skip
      let index ← inner .lowest
      let closing ← expect .closeBracket
      extend inner power bound (.index left index ⟨left.span.start, closing.span.stop⟩)

/-- An expression of at most as many tokens as the bound. -/
def exprWithin : Nat → ExprReader
  | 0, _ => unexpected
  | bound + 1, power => do
    let left ← operand (exprWithin bound) bound
    extend (exprWithin bound) power bound left

def expr : Parser Expr :=
  bounded fun bound => exprWithin bound .lowest

end Parser

end Script
