import Script.Parse.Stmt

/-!
# The grammar

The language as it is meant to be read, without a word on how it is. Each rule says which tokens
make a phrase and what tree the phrase has, places included. An expression belongs to one of seven
levels, from the connectives down to what cannot be taken apart; a phrase of a tighter level is one
of every looser level too.
-/

namespace Script.Grammar

/-- The levels of expressions, from the loosest to the tightest. -/
inductive Level where
  | logical
  | relational
  | additive
  | multiplicative
  | signed
  | applied
  | primary
  deriving DecidableEq

namespace Level

/-- The operators that stand between two operands at a level. They group to the left. -/
def operators : Level → List TokenKind
  | logical => [.and, .or]
  | relational => [.less, .lessEquals, .greater, .greaterEquals, .equals, .notEquals]
  | additive => [.plus, .dash]
  | multiplicative => [.star, .slash, .percent]
  | signed | applied | primary => []

/-- The next tighter level. -/
def next : Level → Level
  | logical => relational
  | relational => additive
  | additive => multiplicative
  | multiplicative => signed
  | signed => applied
  | applied | primary => primary

end Level

/-- The number that decimal digits stand for. -/
def digitsValue (digits : List Char) : Nat :=
  digits.foldl (fun n digit => 10 * n + (digit.toNat - '0'.toNat)) 0

/-- Phrases with commas between them, and maybe one behind the last. -/
inductive Commas : List (List Token) → List Token → Prop
  | nil : Commas [] []
  | last {phrase : List Token} : Commas [phrase] phrase
  | cons {phrase rest : List Token} {phrases : List (List Token)} {comma : Token} :
    comma.kind = .comma → Commas phrases rest → Commas (phrase :: phrases) (phrase ++ comma :: rest)

/-- The tokens of an expression of a level, and its tree. -/
inductive Derives : Level → List Token → Expr → Prop
  | number {token : Token} {value : Integer} :
    token.kind = .number → value.val = digitsValue token.text.toList →
    Derives .primary [token] (.number value token.span)
  | string {token : Token} :
    token.kind = .string → Derives .primary [token] (.string token.text token.span)
  | symbol {token : Token} :
    token.kind = .identifier → Derives .primary [token] (.symbol token.text token.span)
  | true {token : Token} :
    token.kind = .wordTrue → Derives .primary [token] (.boolean Bool.true token.span)
  | false {token : Token} :
    token.kind = .wordFalse → Derives .primary [token] (.boolean Bool.false token.span)
  | group {opening closing : Token} {tokens : List Token} {e : Expr} :
    opening.kind = .openParen → Derives .logical tokens e → closing.kind = .closeParen →
    Derives .primary (opening :: (tokens ++ [closing])) e
  | list {opening closing : Token} {items : List (List Token × Expr)} {tokens : List Token} :
    opening.kind = .openBracket → (∀ item ∈ items, Derives .logical item.1 item.2) →
    Commas (items.map Prod.fst) tokens → closing.kind = .closeBracket →
    Derives .primary (opening :: (tokens ++ [closing]))
      (.list (items.map Prod.snd) ⟨opening.span.start, closing.span.stop⟩)
  | call {callee tokens : List Token} {f : Expr} {opening closing : Token}
    {items : List (List Token × Expr)} :
    Derives .applied callee f → opening.kind = .openParen →
    (∀ item ∈ items, Derives .logical item.1 item.2) → Commas (items.map Prod.fst) tokens →
    closing.kind = .closeParen →
    Derives .applied (callee ++ opening :: (tokens ++ [closing]))
      (.call f (items.map Prod.snd) ⟨f.span.start, closing.span.stop⟩)
  | index {target tokens : List Token} {e i : Expr} {opening closing : Token} :
    Derives .applied target e → opening.kind = .openBracket → Derives .logical tokens i →
    closing.kind = .closeBracket →
    Derives .applied (target ++ opening :: (tokens ++ [closing]))
      (.index e i ⟨e.span.start, closing.span.stop⟩)
  | unary {token : Token} {op : UnaryOp} {tokens : List Token} {e : Expr} :
    UnaryOp.ofKind? token.kind = some op → Derives .signed tokens e →
    Derives .signed (token :: tokens)
      (.unary ⟨op, token.text, token.span⟩ e ⟨token.span.start, e.span.stop⟩)
  | binary {level : Level} {token : Token} {op : BinaryOp} {left right : List Token} {a b : Expr} :
    token.kind ∈ level.operators → BinaryOp.ofKind? token.kind = some op →
    Derives level left a → Derives level.next right b →
    Derives level (left ++ token :: right)
      (.binary a ⟨op, token.text, token.span⟩ b ⟨a.span.start, b.span.stop⟩)
  | tighter {level : Level} {tokens : List Token} {e : Expr} :
    Derives level.next tokens e → Derives level tokens e

inductive DerivesType : List Token → TypeExpr → Prop
  | named {token : Token} :
    token.kind = .identifier → DerivesType [token] (.named token.text token.span.start)
  | listOf {tokens : List Token} {element : TypeExpr} {opening closing : Token} :
    DerivesType tokens element → opening.kind = .openBracket → closing.kind = .closeBracket →
    DerivesType (tokens ++ [opening, closing]) (.listOf element)

/-- A type behind the token that introduces it, or nothing. -/
inductive DerivesAscription (introducer : TokenKind) : List Token → Option TypeExpr → Prop
  | nothing : DerivesAscription introducer [] none
  | type {token : Token} {tokens : List Token} {type : TypeExpr} :
    token.kind = introducer → DerivesType tokens type →
    DerivesAscription introducer (token :: tokens) (some type)

/-- A token as a name. -/
def name (token : Token) : Identifier := ⟨token.text, token.span.start.line⟩

inductive DerivesParameter : List Token → Parameter → Prop
  | mk {token : Token} {tokens : List Token} {ascription : Option TypeExpr} :
    token.kind = .identifier → DerivesAscription .colon tokens ascription →
    DerivesParameter (token :: tokens) ⟨name token, ascription⟩

/-- One or more identifiers with a separator between them. -/
inductive Names (separator : TokenKind) : List Token → List Token → Prop
  | one {token : Token} : token.kind = .identifier → Names separator [token] [token]
  | more {token between : Token} {names tokens : List Token} :
    token.kind = .identifier → between.kind = separator → Names separator names tokens →
    Names separator (token :: names) (token :: between :: tokens)

/-- A declaration from its `let` or `const` on, inside a statement that begins at `start`. -/
inductive DerivesDeclaration (start : Position) (global : Bool) : List Token → Stmt → Prop
  | mk {opening token equals closing : Token} {typeTokens tokens : List Token}
    {ascription : Option TypeExpr} {e : Expr} :
    opening.kind = .wordLet ∨ opening.kind = .wordConst → token.kind = .identifier →
    DerivesAscription .colon typeTokens ascription → equals.kind = .assignment →
    Derives .logical tokens e → closing.kind = .semicolon →
    DerivesDeclaration start global
      (opening :: token :: (typeTokens ++ equals :: (tokens ++ [closing])))
      (.declaration (name token) (opening.kind = .wordConst) global ascription e
        ⟨start, closing.span.stop⟩)

mutual

inductive DerivesStmt : List Token → Stmt → Prop
  | importNames {opening word closing : Token} {names path nameTokens pathTokens : List Token} :
    opening.kind = .wordImport → Names .comma names nameTokens → word.kind = .wordFrom →
    Names .dot path pathTokens → closing.kind = .semicolon →
    DerivesStmt (opening :: (nameTokens ++ word :: (pathTokens ++ [closing])))
      (.importNames (names.map name) (path.map (·.text)) ⟨opening.span.start, closing.span.stop⟩)
  | declaration {opening : Token} {tokens : List Token} {stmt : Stmt} :
    DerivesDeclaration opening.span.start false (opening :: tokens) stmt →
    DerivesStmt (opening :: tokens) stmt
  | globalDeclaration {word : Token} {tokens : List Token} {stmt : Stmt} :
    word.kind = .wordGlobal → DerivesDeclaration word.span.start true tokens stmt →
    DerivesStmt (word :: tokens) stmt
  | reassignment {token equals closing : Token} {tokens : List Token} {e : Expr} :
    token.kind = .identifier → equals.kind = .assignment → Derives .logical tokens e →
    closing.kind = .semicolon →
    DerivesStmt (token :: equals :: (tokens ++ [closing]))
      (.reassignment (name token) e ⟨token.span.start, closing.span.stop⟩)
  | compound {token operator closing : Token} {op : BinaryOp} {tokens : List Token} {e : Expr} :
    token.kind = .identifier → BinaryOp.ofCompound? operator.kind = some op →
    Derives .logical tokens e → closing.kind = .semicolon →
    DerivesStmt (token :: operator :: (tokens ++ [closing]))
      (.reassignment (name token)
        (.binary (.symbol token.text token.span)
          ⟨op, Parser.simpleOperatorText operator.text, operator.span⟩ e
          ⟨token.span.start, e.span.stop⟩)
        ⟨token.span.start, closing.span.stop⟩)
  | function {opening token left right : Token} {items : List (List Token × Parameter)}
    {tokens returnTokens bodyTokens : List Token} {returns : Option TypeExpr} {body : Block} :
    opening.kind = .wordFn → token.kind = .identifier → left.kind = .openParen →
    (∀ item ∈ items, DerivesParameter item.1 item.2) → Commas (items.map Prod.fst) tokens →
    right.kind = .closeParen → DerivesAscription .arrow returnTokens returns →
    DerivesBlock bodyTokens body →
    DerivesStmt (opening :: token :: left :: (tokens ++ right :: (returnTokens ++ bodyTokens)))
      (.function (name token) (items.map Prod.snd) returns body
        ⟨opening.span.start, body.span.stop⟩)
  | returnNothing {opening closing : Token} :
    opening.kind = .wordReturn → closing.kind = .semicolon →
    DerivesStmt [opening, closing] (.returnValue none ⟨opening.span.start, closing.span.stop⟩)
  | returnValue {opening closing : Token} {tokens : List Token} {e : Expr} :
    opening.kind = .wordReturn → Derives .logical tokens e → closing.kind = .semicolon →
    DerivesStmt (opening :: (tokens ++ [closing]))
      (.returnValue (some e) ⟨opening.span.start, closing.span.stop⟩)
  | conditional {tokens : List Token} {branch : Conditional} :
    DerivesConditional tokens branch → DerivesStmt tokens (.conditional branch)
  | loop {opening : Token} {tokens bodyTokens : List Token} {e : Expr} {body : Block} :
    opening.kind = .wordWhile → Derives .logical tokens e → DerivesBlock bodyTokens body →
    DerivesStmt (opening :: (tokens ++ bodyTokens))
      (.loop e body ⟨opening.span.start, body.span.stop⟩)
  | expression {tokens : List Token} {e : Expr} {closing : Token} :
    Derives .logical tokens e → closing.kind = .semicolon →
    DerivesStmt (tokens ++ [closing]) (.expression e e.span)

inductive DerivesConditional : List Token → Conditional → Prop
  | plain {opening : Token} {tokens bodyTokens : List Token} {e : Expr} {body : Block} :
    opening.kind = .wordIf → Derives .logical tokens e → DerivesBlock bodyTokens body →
    DerivesConditional (opening :: (tokens ++ bodyTokens))
      (.mk e body .nothing ⟨opening.span.start, body.span.stop⟩)
  | withBlock {opening word : Token} {tokens bodyTokens elseTokens : List Token} {e : Expr}
    {body otherwise : Block} :
    opening.kind = .wordIf → Derives .logical tokens e → DerivesBlock bodyTokens body →
    word.kind = .wordElse → DerivesBlock elseTokens otherwise →
    DerivesConditional (opening :: (tokens ++ (bodyTokens ++ word :: elseTokens)))
      (.mk e body (.block otherwise) ⟨opening.span.start, otherwise.span.stop⟩)
  | withConditional {opening word : Token} {tokens bodyTokens elseTokens : List Token} {e : Expr}
    {body : Block} {branch : Conditional} :
    opening.kind = .wordIf → Derives .logical tokens e → DerivesBlock bodyTokens body →
    word.kind = .wordElse → DerivesConditional elseTokens branch →
    DerivesConditional (opening :: (tokens ++ (bodyTokens ++ word :: elseTokens)))
      (.mk e body (.conditional branch) ⟨opening.span.start, branch.span.stop⟩)

inductive DerivesBlock : List Token → Block → Prop
  | mk {opening closing : Token} {items : List (List Token × Stmt)} :
    opening.kind = .openCurly → (∀ item ∈ items, DerivesStmt item.1 item.2) →
    closing.kind = .closeCurly →
    DerivesBlock (opening :: (items.flatMap Prod.fst ++ [closing]))
      (.mk (items.map Prod.snd) ⟨opening.span.start, closing.span.stop⟩)

end

/-- The tokens of a whole program, and its statements. -/
inductive DerivesProgram : List Token → List Stmt → Prop
  | mk {items : List (List Token × Stmt)} :
    (∀ item ∈ items, DerivesStmt item.1 item.2) →
    DerivesProgram (items.flatMap Prod.fst) (items.map Prod.snd)

end Script.Grammar
