import Script.Proofs.Parse.Closing
import Script.Proofs.Parse.Completeness.Stmts
import Script.Proofs.Parse.Moved
import Script.Proofs.Token.Words

/-!
# Compound assignments are read as assignments

A compound assignment is put together by the parser of statements, which has no part in how operators
group. Written out with parentheses it goes through the parser of expressions. Both take a whole
expression as one operand, so they come to the same tree.
-/

namespace Script

/-- The words of a compound assignment and of the operation in it. -/
inductive Compounds : Word → Word → Prop
  | add : Compounds (.plusEquals, "+=") (.plus, "+")
  | subtract : Compounds (.minusEquals, "-=") (.dash, "-")
  | multiply : Compounds (.starEquals, "*=") (.star, "*")
  | divide : Compounds (.slashEquals, "/=") (.slash, "/")

/-- The tokens are one whole expression. -/
def IsExpression (tokens : List Token) : Prop :=
  ∃ stop e, stop.kind = .endOfFile ∧ Parser.expr ⟨tokens, stop⟩ = .ok e ⟨[], stop⟩

theorem Compounds.operation {assigning applied : Word} (h : Compounds assigning applied) :
    ∃ op, BinaryOp.ofCompound? assigning.1 = some op ∧
      Continuation.ofKind? applied.1 = some (.binary op) ∧
      ¬Power.ofKind applied.1 ≤ .lowest ∧
      Parser.simpleOperatorText assigning.2 = applied.2 := by
  cases h with
  | add => exact ⟨.operation .add, rfl, rfl, by decide, by decide⟩
  | subtract => exact ⟨.operation .subtract, rfl, rfl, by decide, by decide⟩
  | multiply => exact ⟨.operation .multiply, rfl, rfl, by decide, by decide⟩
  | divide => exact ⟨.operation .divide, rfl, rfl, by decide, by decide⟩

theorem map_move_of_words {tokens tokens' : List Token}
    (h : tokens'.map Token.word = tokens.map Token.word) :
    tokens'.map (Token.move .nowhere) = tokens.map (Token.move .nowhere) := by
  have hmove : Token.move .nowhere =
      (fun word : Word => (⟨word.1, word.2, ⟨.unknown, .unknown⟩⟩ : Token)) ∘ Token.word := rfl
  rw [hmove, ← List.map_map, h, List.map_map]

theorem words_cons {tokens : List Token} {kind : TokenKind} {text : String} {words : List Word}
    (h : tokens.map Token.word = (kind, text) :: words) :
    ∃ token rest, tokens = token :: rest ∧ (token.kind = kind ∧ token.text = text) ∧
      rest.map Token.word = words := by
  obtain ⟨token, rest, htokens, hword, hrest⟩ := List.map_eq_cons_iff.1 h
  exact ⟨token, rest, htokens, Prod.mk.inj hword, hrest⟩

namespace Parser

variable {stop end_ : Token} {tokens rest : List Token} {e : Expr}

theorem expr_closed (hend : end_.kind = .endOfFile) (h : expr ⟨tokens, end_⟩ = .ok e ⟨[], end_⟩)
    {next : Token} (hnext : Power.ofKind next.kind = .lowest) :
    expr ⟨tokens ++ next :: rest, stop⟩ = .ok e ⟨next :: rest, stop⟩ :=
  exprWithin_of_expr (t := ⟨next :: rest, stop⟩) hend h hnext (by simp)

/-- A whole expression is one wherever its tokens stand. -/
theorem expr_alike (hend : end_.kind = .endOfFile) (h : expr ⟨tokens, end_⟩ = .ok e ⟨[], end_⟩)
    {tokens' : List Token} (hwords : tokens'.map Token.word = tokens.map Token.word) :
    ∃ e', expr ⟨tokens', end_⟩ = .ok e' ⟨[], end_⟩ ∧ e'.move .nowhere = e.move .nowhere := by
  have hcursor :
      (Cursor.mk tokens' end_).move .nowhere = (Cursor.mk tokens end_).move .nowhere := by
    rw [Cursor.move, map_move_of_words hwords]
    rfl
  have hmoved : expr ((Cursor.mk tokens end_).move .nowhere) =
      .ok (e.move .nowhere) ((Cursor.mk [] end_).move .nowhere) := by
    obtain ⟨a, s, ha, hmoved⟩ | ⟨_, _, _, herror, -⟩ := shifts_expr (δ := .nowhere) ⟨tokens, end_⟩
    · cases h.symm.trans ha
      exact hmoved
    · cases h.symm.trans herror
  obtain ⟨e', s, he', hmoved'⟩ | ⟨_, _, _, -, hmoved'⟩ :=
    shifts_expr (δ := .nowhere) ⟨tokens', end_⟩
  · rw [hcursor, hmoved] at hmoved'
    obtain ⟨hexpr, hs⟩ := EStateM.Result.ok.inj hmoved'
    obtain ⟨left, rfl⟩ := stop_of_expr hend he'
    obtain rfl : left = [] := List.map_eq_nil_iff.1 (congrArg Cursor.rest hs).symm
    exact ⟨e', he', hexpr.symm⟩
  · rw [hcursor, hmoved] at hmoved'
    cases hmoved'

/-- A name, an operator and a whole expression in parentheses are one expression. -/
theorem expr_grouped (hstop : stop.kind = .endOfFile) (hend : end_.kind = .endOfFile)
    (h : expr ⟨tokens, end_⟩ = .ok e ⟨[], end_⟩) {name operator opening closing next : Token}
    {op : BinaryOp} (hname : name.kind = .identifier)
    (hop : Continuation.ofKind? operator.kind = some (.binary op))
    (hpower : ¬Power.ofKind operator.kind ≤ .lowest) (hopening : opening.kind = .openParen)
    (hclosing : closing.kind = .closeParen) (hnext : Power.ofKind next.kind = .lowest) :
    expr ⟨name :: operator :: opening :: (tokens ++ closing :: next :: rest), stop⟩ =
      .ok (.binary (.symbol name.text name.span) ⟨op, operator.text, operator.span⟩ e
        ⟨name.span.start, e.span.stop⟩) ⟨next :: rest, stop⟩ := by
  have hfollows (rank : Nat) : Follows rank (next :: rest) :=
    follows_cons (hnext ▸ Nat.zero_le rank)
  obtain ⟨bound, hbound, hlength⟩ : ∃ bound, tokens.length ≤ bound ∧
      (name :: operator :: opening :: (tokens ++ closing :: next :: rest)).length = bound + 3 :=
    ⟨(tokens ++ closing :: next :: rest).length, by simp, rfl⟩
  have hparens : operand (exprWithin (bound + 1)) (bound + 1)
      ⟨opening :: (tokens ++ closing :: next :: rest), stop⟩ = .ok e ⟨next :: rest, stop⟩ := by
    rw [operand]
    apply current_eq
    simp only [hopening]
    have hvalue : exprWithin (bound + 1) .lowest ⟨tokens ++ closing :: next :: rest, stop⟩ =
        .ok e ⟨closing :: next :: rest, stop⟩ :=
      exprWithin_of_expr (t := ⟨closing :: next :: rest, stop⟩) hend h (by
        show Power.ofKind closing.kind = .lowest
        rw [hclosing]
        rfl) (Nat.le_succ_of_le hbound)
    exact skip_eq (bind_eq hvalue (bind_eq (expect_eq hclosing) rfl))
  have hright : exprWithin (bound + 2) (.ofKind operator.kind)
      ⟨opening :: (tokens ++ closing :: next :: rest), stop⟩ = .ok e ⟨next :: rest, stop⟩ := by
    rw [exprWithin]
    exact bind_eq hparens (extend_eq hstop (hfollows _))
  have hleft : operand (exprWithin (bound + 2)) (bound + 2)
      ⟨name :: operator :: opening :: (tokens ++ closing :: next :: rest), stop⟩ =
        .ok (.symbol name.text name.span)
          ⟨operator :: opening :: (tokens ++ closing :: next :: rest), stop⟩ := by
    rw [operand]
    apply current_eq
    simp only [hname]
    rfl
  rw [expr, bounded, hlength, exprWithin]
  refine bind_eq hleft ?_
  rw [extend]
  refine current_eq (else_eq hpower ?_)
  simp only [hop]
  exact skip_eq (bind_eq hright (extend_eq hstop (hfollows _)))

/-- An assignment of whatever kind is read with its right side. -/
theorem stmt_reassignment {name operator closing : Token} (hname : name.kind = .identifier)
    (hoperator : operator.kind.Assigns) (hclosing : closing.kind = .semicolon)
    (hvalue : expr ⟨tokens ++ closing :: rest, stop⟩ = .ok e ⟨closing :: rest, stop⟩) :
    stmt ⟨name :: operator :: (tokens ++ closing :: rest), stop⟩ =
      .ok (.reassignment ⟨name.text, name.span.start.line⟩
        (match BinaryOp.ofCompound? operator.kind with
        | some op =>
          .binary (.symbol name.text name.span)
            ⟨op, simpleOperatorText operator.text, operator.span⟩ e
            ⟨name.span.start, e.span.stop⟩
        | none => e)
        ⟨name.span.start, closing.span.stop⟩) ⟨rest, stop⟩ := by
  refine (stmtWithin_of_assigns hname hoperator).trans ?_
  refine bind_eq (p := advance) rfl (bind_eq (p := advance) rfl (bind_eq hvalue ?_))
  exact bind_eq (expect_eq hclosing) rfl

end Parser

/-- In front of anything the tokens are read as an assignment to `x` of this operation on `x` and the
value `e`, but for places. -/
def AssignsApplied (x : String) (op : BinaryOp) (text : String) (e : Expr) (tokens : List Token) :
    Prop :=
  ∃ line left operator span span' value, value.move .nowhere = e.move .nowhere ∧
    ∀ rest stop, stop.kind = .endOfFile → Parser.stmt ⟨tokens ++ rest, stop⟩ =
      .ok (.reassignment ⟨x, line⟩ (.binary (.symbol x left) ⟨op, text, operator⟩ value span) span')
        ⟨rest, stop⟩

section

variable {end_ : Token} (hend : end_.kind = .endOfFile) {x : String} {e tokens : List Token}
  {tree : Expr} (he : Parser.expr ⟨e, end_⟩ = .ok tree ⟨[], end_⟩) {assigning applied : Word}
  {op : BinaryOp}

include hend he

theorem assigns_compound (hop : BinaryOp.ofCompound? assigning.1 = some op)
    (htext : Parser.simpleOperatorText assigning.2 = applied.2)
    (htokens : tokens.map Token.word =
      (.identifier, x) :: assigning :: (e.map Token.word ++ [(.semicolon, ";")])) :
    AssignsApplied x op applied.2 tree tokens := by
  obtain ⟨name, _, rfl, hname, htokens⟩ := words_cons htokens
  obtain ⟨operator, _, rfl, hoperator, htokens⟩ := words_cons htokens
  obtain ⟨right, _, rfl, hright, htokens⟩ := List.map_eq_append_iff.1 htokens
  obtain ⟨closing, _, rfl, hclosing, htokens⟩ := words_cons htokens
  obtain rfl := List.map_eq_nil_iff.1 htokens
  obtain ⟨value, hvalue, hmove⟩ := Parser.expr_alike hend he hright
  have hcompound : BinaryOp.ofCompound? operator.kind = some op := hoperator.1 ▸ hop
  have hassigns : operator.kind.Assigns := .inr (by rw [hcompound]; rfl)
  have hloose : Power.ofKind closing.kind = .lowest := by
    rw [hclosing.1]
    rfl
  refine ⟨name.span.start.line, name.span, operator.span, ⟨name.span.start, value.span.stop⟩,
    ⟨name.span.start, closing.span.stop⟩, value, hmove, fun rest stop _ => ?_⟩
  have hread : Parser.expr ⟨right ++ closing :: rest, stop⟩ = .ok value ⟨closing :: rest, stop⟩ :=
    Parser.expr_closed hend hvalue hloose
  simp only [List.cons_append, List.append_assoc, List.nil_append]
  rw [Parser.stmt_reassignment hname.1 hassigns hclosing.1 hread, hcompound, hname.2, hoperator.2,
    htext]

theorem assigns_grouped (hop : Continuation.ofKind? applied.1 = some (.binary op))
    (hpower : ¬Power.ofKind applied.1 ≤ .lowest)
    (htokens : tokens.map Token.word =
      (.identifier, x) :: (.assignment, "=") :: (.identifier, x) :: applied :: (.openParen, "(") ::
        (e.map Token.word ++ [(.closeParen, ")"), (.semicolon, ";")])) :
    AssignsApplied x op applied.2 tree tokens := by
  obtain ⟨name, _, rfl, hname, htokens⟩ := words_cons htokens
  obtain ⟨equals, _, rfl, hequals, htokens⟩ := words_cons htokens
  obtain ⟨operand, _, rfl, hoperand, htokens⟩ := words_cons htokens
  obtain ⟨operator, _, rfl, hoperator, htokens⟩ := words_cons htokens
  obtain ⟨opening, _, rfl, hopening, htokens⟩ := words_cons htokens
  obtain ⟨right, _, rfl, hright, htokens⟩ := List.map_eq_append_iff.1 htokens
  obtain ⟨parenthesis, _, rfl, hparenthesis, htokens⟩ := words_cons htokens
  obtain ⟨closing, _, rfl, hclosing, htokens⟩ := words_cons htokens
  obtain rfl := List.map_eq_nil_iff.1 htokens
  obtain ⟨value, hvalue, hmove⟩ := Parser.expr_alike hend he hright
  have happlied : Continuation.ofKind? operator.kind = some (.binary op) := hoperator.1 ▸ hop
  have hbinds : ¬Power.ofKind operator.kind ≤ .lowest := hoperator.1 ▸ hpower
  have hloose : Power.ofKind closing.kind = .lowest := by
    rw [hclosing.1]
    rfl
  have hnone : BinaryOp.ofCompound? equals.kind = none := by
    rw [hequals.1]
    rfl
  refine ⟨name.span.start.line, operand.span, operator.span, ⟨operand.span.start, value.span.stop⟩,
    ⟨name.span.start, closing.span.stop⟩, value, hmove, fun rest stop hstop => ?_⟩
  have hread : Parser.expr
      ⟨operand :: operator :: opening :: (right ++ parenthesis :: closing :: rest), stop⟩ = _ :=
    Parser.expr_grouped hstop hend hvalue hoperand.1 happlied hbinds hopening.1 hparenthesis.1 hloose
  have htokens : operand :: operator :: opening :: (right ++ parenthesis :: closing :: rest) =
      (operand :: operator :: opening :: (right ++ [parenthesis])) ++ closing :: rest := by
    simp
  rw [htokens] at hread
  have hstmt := Parser.stmt_reassignment hname.1 (.inl hequals.1) hclosing.1 hread
  rw [hnone, hname.2, hoperand.2, hoperator.2, ← htokens] at hstmt
  simpa using hstmt

end

end Script
