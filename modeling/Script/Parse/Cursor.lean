import Script.Error
import Script.Token

/-!
# Reading tokens in order

A cursor stands before the tokens still to be read. Nothing is read past the first end-of-file
token: it stays the current token for good. A failed step leaves the cursor where it gave up, which
is where recovery starts from.
-/

namespace Script

structure Cursor where
  /-- The tokens before the end of the file, the current one first. -/
  rest : List Token
  /-- The end-of-file token. -/
  stop : Token
  deriving Inhabited

abbrev Parser := EStateM Error Cursor

namespace Cursor

def ofTokens (tokens : List Token) (file : String) : Cursor :=
  let rest := tokens.takeWhile (·.kind ≠ .endOfFile)
  let stop := match tokens.dropWhile (·.kind ≠ .endOfFile) with
    | stop :: _ => stop
    | [] => .endOfFile (tokens.getLast?.elim (.start file) (·.span.stop))
  { rest, stop }

def current (s : Cursor) : Token :=
  s.rest.headD s.stop

/-- The kind of the token after the current one. -/
def nextKind (s : Cursor) : TokenKind :=
  match s.rest with
  | _ :: next :: _ => next.kind
  | _ => .endOfFile

def advance (s : Cursor) : Cursor :=
  match s.rest with
  | [] => s
  | _ :: rest => { s with rest }

end Cursor

namespace Parser

def current : Parser Token := fun s => .ok s.current s

def kind : Parser TokenKind := fun s => .ok s.current.kind s

def nextKind : Parser TokenKind := fun s => .ok s.nextKind s

/-- The start of the current token. -/
def position : Parser Position := fun s => .ok s.current.span.start s

/-- A parser that is bounded by the number of tokens left. -/
def bounded (p : Nat → Parser α) : Parser α := fun s => p s.rest.length s

/-- Reads the current token. -/
def advance : Parser Token := fun s => .ok s.current s.advance

/-- Leaves the current token behind. -/
def skip : Parser Unit := fun s => .ok () s.advance

def failWith (cause : Token → Cause) : Parser α := fun s =>
  .error (.located (cause s.current) s.current.span.start) s

def unexpected : Parser α :=
  failWith fun token => .unexpectedToken token.text

def unexpectedBecause (message : String) : Parser α :=
  failWith fun token => .unexpectedTokenDetailed token.text message

def expect (kind : TokenKind) : Parser Token := do
  if (← current).kind = kind then advance else unexpected

def expectBecause (kind : TokenKind) (message : String) : Parser Token := do
  if (← current).kind = kind then advance else unexpectedBecause message

/-- Items separated by commas, up to and including the token that closes them; a comma may follow
the last one. The bound is at least the number of tokens left: every item takes one. -/
def items (item : Parser α) (close : TokenKind) (message : String) : Nat → Parser (List α × Token)
  | 0 => unexpected
  | bound + 1 => do
    let next ← current
    if next.kind = close then
      skip
      return ([], next)
    else
      let a ← item
      let next ← current
      if next.kind = .comma then
        skip
        let (rest, closing) ← items item close message bound
        return (a :: rest, closing)
      else if next.kind = close then
        skip
        return ([a], next)
      else
        unexpectedBecause message

end Parser

end Script
