import Script.Source
import Script.Text.Quoted

/-!
# Tokens

The words of the language. A token is a kind, its text and its place; the text of a string token is
the decoded string, of every other token the characters as written.
-/

namespace Script

inductive TokenKind where
  | endOfFile
  | number
  | string
  | identifier
  | openBracket
  | closeBracket
  | openCurly
  | closeCurly
  | openParen
  | closeParen
  | assignment
  | equals
  | not
  | notEquals
  | less
  | lessEquals
  | greater
  | greaterEquals
  | or
  | and
  | dot
  | semicolon
  | colon
  | comma
  | arrow
  | plusEquals
  | minusEquals
  | slashEquals
  | starEquals
  | plus
  | dash
  | slash
  | star
  | percent
  | wordLet
  | wordConst
  | wordGlobal
  | wordImport
  | wordFrom
  | wordFn
  | wordReturn
  | wordIf
  | wordElse
  | wordWhile
  | wordTrue
  | wordFalse
  deriving DecidableEq, Inhabited

namespace TokenKind

def all : List TokenKind :=
  [endOfFile, number, string, identifier, openBracket, closeBracket, openCurly, closeCurly,
    openParen, closeParen, assignment, equals, not, notEquals, less, lessEquals, greater,
    greaterEquals, or, and, dot, semicolon, colon, comma, arrow, plusEquals, minusEquals,
    slashEquals, starEquals, plus, dash, slash, star, percent, wordLet, wordConst, wordGlobal,
    wordImport, wordFrom, wordFn, wordReturn, wordIf, wordElse, wordWhile, wordTrue, wordFalse]

def name : TokenKind → String
  | endOfFile => "EOF"
  | number => "Number"
  | string => "String"
  | identifier => "Identifier"
  | openBracket => "OpenBracket"
  | closeBracket => "CloseBracket"
  | openCurly => "OpenCurly"
  | closeCurly => "CloseCurly"
  | openParen => "OpenParen"
  | closeParen => "CloseParen"
  | assignment => "Assignment"
  | equals => "Equals"
  | not => "Not"
  | notEquals => "NotEquals"
  | less => "Less"
  | lessEquals => "LessEquals"
  | greater => "Greater"
  | greaterEquals => "GreaterEquals"
  | or => "Or"
  | and => "And"
  | dot => "Dot"
  | semicolon => "Semicolon"
  | colon => "Colon"
  | comma => "Comma"
  | arrow => "Arrow"
  | plusEquals => "PlusEquals"
  | minusEquals => "MinusEquals"
  | slashEquals => "SlashEquals"
  | starEquals => "StarEquals"
  | plus => "Plus"
  | dash => "Dash"
  | slash => "Slash"
  | star => "Star"
  | percent => "Percent"
  | wordLet => "Let"
  | wordConst => "Const"
  | wordGlobal => "Global"
  | wordImport => "Import"
  | wordFrom => "From"
  | wordFn => "Fn"
  | wordReturn => "Return"
  | wordIf => "If"
  | wordElse => "Else"
  | wordWhile => "While"
  | wordTrue => "True"
  | wordFalse => "False"

def ofName? (name : String) : Option TokenKind :=
  all.find? fun kind => kind.name = name

/-- The kind of a word: a keyword, or else an identifier. -/
def ofWord : String → TokenKind
  | "let" => wordLet
  | "const" => wordConst
  | "global" => wordGlobal
  | "import" => wordImport
  | "from" => wordFrom
  | "fn" => wordFn
  | "return" => wordReturn
  | "if" => wordIf
  | "else" => wordElse
  | "while" => wordWhile
  | "true" => wordTrue
  | "false" => wordFalse
  | _ => identifier

/-- The operators and punctuation marks as written, those of two characters before those of one. -/
def marks : List (List Char × TokenKind) := [
  (['=', '='], equals), (['!', '='], notEquals), (['<', '='], lessEquals),
  (['>', '='], greaterEquals), (['|', '|'], or), (['&', '&'], and), (['-', '>'], arrow),
  (['+', '='], plusEquals), (['-', '='], minusEquals), (['*', '='], starEquals),
  (['/', '='], slashEquals),
  (['['], openBracket), ([']'], closeBracket), (['{'], openCurly), (['}'], closeCurly),
  (['('], openParen), ([')'], closeParen), (['!'], not), (['='], assignment), (['<'], less),
  (['>'], greater), (['.'], dot), ([';'], semicolon), ([':'], colon), ([','], comma),
  (['+'], plus), (['-'], dash), (['/'], slash), (['*'], star), (['%'], percent)]

end TokenKind

structure Token where
  kind : TokenKind
  text : String
  span : Span
  deriving DecidableEq, Inhabited

namespace Token

/-- The token that closes every file. -/
def endOfFile (p : Position) : Token := ⟨.endOfFile, "EOF", ⟨p, p⟩⟩

def describe (t : Token) : String :=
  s!"{t.kind.name}({quote t.text}) at line {t.span.start.line}"

end Token

end Script
