import Script.Proofs.Eval.Layout
import Script.Proofs.Parse.Compound

/-!
# Compound assignments are run as assignments

No place in an expression has a part in what it is evaluated to. So two assignments that are read to
the same tree but for places do the same on every machine, and where they fail they fail alike.
-/

namespace Script

/-- Two runs end in the same way and leave the same machine behind, but an error may be reported at
other places. -/
def EndsAlike : EStateM.Result Stop Machine α → EStateM.Result Stop Machine α → Prop
  | .ok a m, .ok a' m' => a' = a ∧ m' = m
  | .error stop m, .error stop' m' =>
    stop'.mapError (Error.move .nowhere) = stop.mapError (Error.move .nowhere) ∧ m' = m
  | _, _ => False

theorem evaluate_alike (call : Caller) {e e' : Expr} (h : e'.move .nowhere = e.move .nowhere) :
    evaluate call e' = evaluate call e := by
  rw [← evaluate_move .nowhere call e', h, evaluate_move]

/-- To statements of one kind errors are attributed alike. -/
theorem attributed_alike (ctx : Context) {stmt stmt' : Stmt} (hkind : stmt'.kind = stmt.kind)
    (x : Run α) (m : Machine) :
    EndsAlike (Run.attributed ctx stmt x m) (Run.attributed ctx stmt' x m) := by
  have hstmt : Run.attributed ctx stmt x =
      Run.attributedTo ctx stmt.kind stmt.span.start x := rfl
  have hstmt' : Run.attributed ctx stmt' x =
      Run.attributedTo ctx stmt.kind stmt'.span.start x := by
    rw [← hkind]
    rfl
  rw [hstmt, hstmt']
  cases hx : x m with
  | ok a n =>
    rw [Run.attributedTo_of_ok hx, Run.attributedTo_of_ok hx]
    exact ⟨rfl, rfl⟩
  | error stop n =>
    rw [Run.attributedTo_of_error hx, Run.attributedTo_of_error hx]
    refine ⟨?_, rfl⟩
    rw [Stop.attributed_nowhere, Stop.attributed_nowhere]

section

variable {name name' : Identifier} {value value' : Expr} {span span' : Span}
  (hname : name'.name = name.name) (hvalue : value'.move .nowhere = value.move .nowhere)

include hname hvalue

theorem runStmt_reassignment_alike (ctx : Context) (call : Caller) (fuel : Nat) (f : UserFunction) :
    let stmt := Stmt.reassignment name value span
    let stmt' := Stmt.reassignment name' value' span'
    runStmt ctx call fuel f stmt' = runStmt ctx call fuel f stmt ∧
      ∀ m, EndsAlike (Run.attributed ctx stmt (runStmt ctx call fuel f stmt) m)
        (Run.attributed ctx stmt' (runStmt ctx call fuel f stmt') m) := by
  intro stmt stmt'
  have hsame : runStmt ctx call fuel f stmt' = runStmt ctx call fuel f stmt := by
    rw [runStmt, runStmt, runReassignment, runReassignment, evaluate_alike call hvalue, hname]
  refine ⟨hsame, fun m => ?_⟩
  rw [hsame]
  exact attributed_alike ctx (by rw [Stmt.kind, Stmt.kind]) _ m

theorem runTopLevel_reassignment_alike (run : ModuleRunner) (call : Caller) (ctx : Context) :
    let stmt := Stmt.reassignment name value span
    let stmt' := Stmt.reassignment name' value' span'
    runTopLevel run call ctx stmt' = runTopLevel run call ctx stmt ∧
      ∀ m, EndsAlike (Run.attributed ctx stmt (runTopLevel run call ctx stmt) m)
        (Run.attributed ctx stmt' (runTopLevel run call ctx stmt') m) := by
  intro stmt stmt'
  have hsame : runTopLevel run call ctx stmt' = runTopLevel run call ctx stmt := by
    rw [runTopLevel, runTopLevel, runReassignment, runReassignment, evaluate_alike call hvalue,
      hname]
  refine ⟨hsame, fun m => ?_⟩
  rw [hsame]
  exact attributed_alike ctx (by rw [Stmt.kind, Stmt.kind]) _ m

end

/-- A compound assignment with any expression behind it is read to the tree of the assignment written
out with that expression in parentheses, but for places. In the body of a function and at the top
level of a module, both do the same on every machine. -/
theorem Compounds.assignment {assigning applied : Word} (h : Compounds assigning applied)
    {x : String} {e tokens tokens' : List Token} (he : IsExpression e)
    (htokens : tokens.map Token.word =
      (.identifier, x) :: assigning :: (e.map Token.word ++ [(.semicolon, ";")]))
    (htokens' : tokens'.map Token.word =
      (.identifier, x) :: (.assignment, "=") :: (.identifier, x) :: applied :: (.openParen, "(") ::
        (e.map Token.word ++ [(.closeParen, ")"), (.semicolon, ";")])) :
    ∃ stmt stmt',
      (∀ rest stop, stop.kind = .endOfFile →
        Parser.stmt ⟨tokens ++ rest, stop⟩ = .ok stmt ⟨rest, stop⟩) ∧
      (∀ rest stop, stop.kind = .endOfFile →
        Parser.stmt ⟨tokens' ++ rest, stop⟩ = .ok stmt' ⟨rest, stop⟩) ∧
      stmt'.move .nowhere = stmt.move .nowhere ∧
      (∀ ctx call fuel f, runStmt ctx call fuel f stmt' = runStmt ctx call fuel f stmt ∧
        ∀ m, EndsAlike (Run.attributed ctx stmt (runStmt ctx call fuel f stmt) m)
          (Run.attributed ctx stmt' (runStmt ctx call fuel f stmt') m)) ∧
      ∀ run call ctx, runTopLevel run call ctx stmt' = runTopLevel run call ctx stmt ∧
        ∀ m, EndsAlike (Run.attributed ctx stmt (runTopLevel run call ctx stmt) m)
          (Run.attributed ctx stmt' (runTopLevel run call ctx stmt') m) := by
  obtain ⟨op, hassigning, happlied, hpower, htext⟩ := h.operation
  obtain ⟨end_, tree, hend, he⟩ := he
  obtain ⟨line, left, operator, span, place, value, hmove, hread⟩ :=
    assigns_compound hend he hassigning htext htokens
  obtain ⟨line', left', operator', span', place', value', hmove', hread'⟩ :=
    assigns_grouped hend he happlied hpower htokens'
  -- what is assigned on the one side and on the other is the same but for places
  have hassigned : (Expr.binary (.symbol x left') ⟨op, applied.2, operator'⟩ value' span').move
        .nowhere =
      (Expr.binary (.symbol x left) ⟨op, applied.2, operator⟩ value span).move .nowhere := by
    simp only [Expr.move, hmove, hmove']
    rfl
  refine ⟨_, _, hread, hread', ?_, fun ctx call fuel f => ?_, fun run call ctx => ?_⟩
  · rw [Stmt.move, Stmt.move, hassigned]
    rfl
  · exact runStmt_reassignment_alike rfl hassigned ctx call fuel f
  · exact runTopLevel_reassignment_alike rfl hassigned run call ctx

/-- The sum in `x *= 1 + y;` is one operand of the product. -/
theorem Compounds.assignment_of_sum :
    let token (kind : TokenKind) (text : String) : Token := ⟨kind, text, default⟩
    let e := [token .number "1", token .plus "+", token .identifier "y"]
    let tokens := token .identifier "x" :: token .starEquals "*=" :: (e ++ [token .semicolon ";"])
    let tokens' := token .identifier "x" :: token .assignment "=" :: token .identifier "x" ::
      token .star "*" :: token .openParen "(" ::
        (e ++ [token .closeParen ")", token .semicolon ";"])
    IsExpression e ∧ ∃ stmt stmt',
      (∀ rest stop, stop.kind = .endOfFile →
        Parser.stmt ⟨tokens ++ rest, stop⟩ = .ok stmt ⟨rest, stop⟩) ∧
      (∀ rest stop, stop.kind = .endOfFile →
        Parser.stmt ⟨tokens' ++ rest, stop⟩ = .ok stmt' ⟨rest, stop⟩) ∧
      stmt'.move .nowhere = stmt.move .nowhere ∧
      ∀ ctx call fuel f, runStmt ctx call fuel f stmt' = runStmt ctx call fuel f stmt := by
  intro token e tokens tokens'
  have hsum : Parser.expr ⟨[⟨.number, "1", default⟩, ⟨.plus, "+", default⟩,
        ⟨.identifier, "y", default⟩], .endOfFile default⟩ =
      .ok (.binary (.number ⟨1, by decide, by decide⟩ default) ⟨.operation .add, "+", default⟩
        (.symbol "y" default) default) ⟨[], .endOfFile default⟩ :=
    rfl
  have he : IsExpression e := ⟨_, _, rfl, hsum⟩
  obtain ⟨stmt, stmt', hread, hread', hmove, hrun, -⟩ :=
    Compounds.multiply.assignment (x := "x") he (rfl : tokens.map Token.word = _)
      (rfl : tokens'.map Token.word = _)
  exact ⟨he, stmt, stmt', hread, hread', hmove, fun ctx call fuel f => (hrun ctx call fuel f).1⟩

end Script
