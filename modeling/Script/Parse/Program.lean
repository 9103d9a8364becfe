import Script.Parse.Stmt
import Script.Token.Lexer

/-!
# Reading programs

A program is a sequence of statements. A statement that cannot be read gives one error and is
skipped as a whole, so the statements behind it are read as if it were not there. Its end is the
first `;` outside braces, or the `}` that closes the braces opened since its start unless an `else`
follows.
-/

namespace Script

namespace Cursor

/-- How many more braces the tokens open than they close. -/
def braceDepth (tokens : List Token) : Int :=
  tokens.foldl (fun depth token =>
    match token.kind with
    | .openCurly => depth + 1
    | .closeCurly => depth - 1
    | _ => depth) 0

/-- The tokens behind the end of a statement, `depth` braces deep inside of it. -/
def skipStatement (depth : Int) : List Token → List Token
  | [] => []
  | token :: rest =>
    match token.kind with
    | .semicolon => if depth ≤ 0 then rest else skipStatement depth rest
    | .openCurly => skipStatement (depth + 1) rest
    | .closeCurly =>
      if depth - 1 ≤ 0 ∧ rest.head?.map (·.kind) ≠ some .wordElse then rest
      else skipStatement (depth - 1) rest
    | _ => skipStatement depth rest

/-- Goes on from `failed` to the end of the statement that began at `start`. -/
def recover (start failed : Cursor) : Cursor :=
  let taken := start.rest.take (start.rest.length - failed.rest.length)
  { failed with rest := skipStatement (braceDepth taken) failed.rest }

end Cursor

namespace Parser

/-- The statements and the errors of a whole file, of at most as many tokens as the bound. -/
def programWithin : Nat → Cursor → List Stmt × List Error
  | 0, _ => ([], [])
  | bound + 1, s =>
    if s.rest.isEmpty then ([], [])
    else match stmt s with
      | .ok first s' =>
        let (statements, errors) := programWithin bound s'
        (first :: statements, errors)
      | .error first s' =>
        let (statements, errors) := programWithin bound (s.recover s')
        (statements, first :: errors)

end Parser

/-- Reads a program, or finds all its errors. -/
def parse (tokens : List Token) (file : String) : Except (List Error) Block :=
  let s := Cursor.ofTokens tokens file
  match Parser.programWithin s.rest.length s with
  | (statements, []) => .ok (.mk statements ⟨.start file, s.stop.span.start⟩)
  | (_, errors) => .error errors

/-- Reads the program of a source text. An error in its tokens is reported alone. -/
def parseSource (source : String) (file : String) : Except (List Error) Block :=
  match tokenize source file with
  | .ok tokens => parse tokens file
  | .error e => .error [e]

end Script
