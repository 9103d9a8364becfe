import Script.Proofs.Parse.Completeness

/-!
# Statements that can be derived are read

A statement is told by its first token, and an assignment by its second. It is read whole unless an
`else` follows, which would go on with a conditional.
-/

namespace Script.Parser

open Grammar Cursor

variable {stop : Token} {tokens rest : List Token}

theorem follows_of_kind {token : Token} {kind : TokenKind} (h : token.kind = kind)
    (hrank : (Power.ofKind kind).rank = 0) : Follows 0 (token :: rest) :=
  follows_cons (Nat.le_of_eq (h ▸ hrank))

/-! ### Statements that end with a semicolon -/

theorem declaration_eq {start : Position} {global : Bool} {st : Stmt}
    (h : DerivesDeclaration start global tokens st)
    (hproper : Cursor.Proper ⟨tokens ++ rest, stop⟩) :
    declaration start global ⟨tokens ++ rest, stop⟩ = .ok st ⟨rest, stop⟩ := by
  obtain ⟨-, hname, hascription, hequals, he, hclosing⟩ := h
  simp only [List.cons_append, List.append_assoc, List.nil_append] at hproper ⊢
  refine bind_eq (p := advance) rfl (bind_eq (expectBecause_eq hname) ?_)
  refine bind_eq (ascription?_eq hascription (by rw [hequals]; decide)) ?_
  apply bind_eq (expectBecause_eq hequals)
  have hproper' := proper_of_cons (proper_of_append (proper_of_cons (proper_of_cons hproper)))
  apply bind_eq (expr_eq he (follows_of_kind hclosing rfl) hproper')
  exact bind_eq (expect_eq hclosing) rfl

theorem globalDeclaration_eq {word : Token} {st : Stmt}
    (h : DerivesDeclaration word.span.start true tokens st)
    (hproper : Cursor.Proper ⟨word :: (tokens ++ rest), stop⟩) :
    globalDeclaration ⟨word :: (tokens ++ rest), stop⟩ = .ok st ⟨rest, stop⟩ := by
  have heq := declaration_eq h (proper_of_cons hproper)
  obtain ⟨token, tokens, rfl, hkind⟩ := h.first
  refine bind_eq (p := advance) rfl (kind_eq ?_)
  obtain hkind | hkind := hkind
  · simp only [hkind]
    exact heq
  · simp only [hkind]
    exact heq

theorem importNames_eq {opening word closing : Token}
    {names path nameTokens pathTokens : List Token}
    (hnames : Names .comma names nameTokens) (hword : word.kind = .wordFrom)
    (hpath : Names .dot path pathTokens) (hclosing : closing.kind = .semicolon) :
    importNames ⟨opening :: (nameTokens ++ word :: (pathTokens ++ closing :: rest)), stop⟩ =
      .ok (.importNames (names.map name) (path.map (·.text))
        ⟨opening.span.start, closing.span.stop⟩) ⟨rest, stop⟩ := by
  have hitem (token : Token) (rest : List Token) (h : token.kind = .identifier) :
      (do return (← expect .identifier).text) ⟨token :: rest, stop⟩ =
        (.ok token.text ⟨rest, stop⟩ : EStateM.Result Error Cursor String) :=
    bind_eq (expect_eq h) rfl
  have hfirst : bounded (separated identifier .comma)
      ⟨nameTokens ++ word :: (pathTokens ++ closing :: rest), stop⟩ =
        .ok (names.map name) ⟨word :: (pathTokens ++ closing :: rest), stop⟩ :=
    separated_eq (fun _ _ => identifier_eq) hnames (by rw [hword]; decide) (by simp)
  have hsecond : bounded (separated (do return (← expect .identifier).text) .dot)
      ⟨pathTokens ++ closing :: rest, stop⟩ = .ok (path.map (·.text)) ⟨closing :: rest, stop⟩ :=
    separated_eq hitem hpath (by rw [hclosing]; decide) (by simp)
  refine bind_eq (p := advance) rfl (bind_eq hfirst (bind_eq (expectBecause_eq hword) ?_))
  exact bind_eq hsecond (bind_eq (expect_eq hclosing) rfl)

theorem assignment_eq {token equals closing : Token} {e : Expr}
    (hequals : equals.kind = .assignment) (he : Derives .logical tokens e)
    (hclosing : closing.kind = .semicolon)
    (hproper : Cursor.Proper ⟨token :: equals :: (tokens ++ closing :: rest), stop⟩) :
    reassignment ⟨token :: equals :: (tokens ++ closing :: rest), stop⟩ =
      .ok (.reassignment (name token) e ⟨token.span.start, closing.span.stop⟩) ⟨rest, stop⟩ := by
  have hvalue := expr_eq he (follows_of_kind hclosing rfl) (proper_of_cons (proper_of_cons hproper))
  refine bind_eq (p := advance) rfl (bind_eq (p := advance) rfl (bind_eq hvalue ?_))
  apply bind_eq (expect_eq hclosing)
  have hop : BinaryOp.ofCompound? equals.kind = none := by
    rw [hequals]
    rfl
  simp only [Cursor.current, Cursor.advance, List.headD_cons, hop]
  rfl

theorem compound_eq {token operator closing : Token} {op : BinaryOp} {e : Expr}
    (hop : BinaryOp.ofCompound? operator.kind = some op)
    (he : Derives .logical tokens e) (hclosing : closing.kind = .semicolon)
    (hproper : Cursor.Proper ⟨token :: operator :: (tokens ++ closing :: rest), stop⟩) :
    reassignment ⟨token :: operator :: (tokens ++ closing :: rest), stop⟩ =
      .ok (.reassignment (name token)
        (.binary (.symbol token.text token.span)
          ⟨op, simpleOperatorText operator.text, operator.span⟩ e
          ⟨token.span.start, e.span.stop⟩)
        ⟨token.span.start, closing.span.stop⟩) ⟨rest, stop⟩ := by
  have hvalue := expr_eq he (follows_of_kind hclosing rfl) (proper_of_cons (proper_of_cons hproper))
  refine bind_eq (p := advance) rfl (bind_eq (p := advance) rfl (bind_eq hvalue ?_))
  apply bind_eq (expect_eq hclosing)
  simp only [Cursor.current, Cursor.advance, List.headD_cons, hop]
  rfl

theorem returnValue_eq {opening closing : Token} {e : Expr} (he : Derives .logical tokens e)
    (hclosing : closing.kind = .semicolon)
    (hproper : Cursor.Proper ⟨opening :: (tokens ++ closing :: rest), stop⟩) :
    returnValue ⟨opening :: (tokens ++ closing :: rest), stop⟩ =
      .ok (.returnValue (some e) ⟨opening.span.start, closing.span.stop⟩) ⟨rest, stop⟩ := by
  have hvalue := expr_eq he (follows_of_kind hclosing rfl) (proper_of_cons hproper)
  have hresult : result? ⟨tokens ++ closing :: rest, stop⟩ =
      .ok (some e) ⟨closing :: rest, stop⟩ := by
    obtain ⟨token, tokens, rfl, hkind⟩ := he.first
    refine kind_eq (else_eq (fun heq => ?_) (bind_eq hvalue rfl))
    rw [heq] at hkind
    exact absurd hkind (by decide)
  exact bind_eq (p := advance) rfl (bind_eq hresult (bind_eq (expect_eq hclosing) rfl))

theorem returnNothing_eq {opening closing : Token} (hclosing : closing.kind = .semicolon) :
    returnValue ⟨opening :: closing :: rest, stop⟩ =
      .ok (.returnValue none ⟨opening.span.start, closing.span.stop⟩) ⟨rest, stop⟩ := by
  have hresult : result? ⟨closing :: rest, stop⟩ = .ok none ⟨closing :: rest, stop⟩ :=
    kind_eq (then_eq hclosing rfl)
  exact bind_eq (p := advance) rfl (bind_eq hresult (bind_eq (expect_eq hclosing) rfl))

theorem expression_eq {closing : Token} {e : Expr} (he : Derives .logical tokens e)
    (hclosing : closing.kind = .semicolon)
    (hproper : Cursor.Proper ⟨tokens ++ closing :: rest, stop⟩) :
    expression ⟨tokens ++ closing :: rest, stop⟩ = .ok (.expression e e.span) ⟨rest, stop⟩ :=
  bind_eq (expr_eq he (follows_of_kind hclosing rfl) hproper) (bind_eq (expect_eq hclosing) rfl)

/-! ### Statements that end with a block -/

theorem noElse_flatMap {items : List (List Token × Stmt)}
    (hall : ∀ item ∈ items, DerivesStmt item.1 item.2) (hrest : NoElse rest) :
    NoElse (items.flatMap Prod.fst ++ rest) := by
  cases items with
  | nil => exact hrest
  | cons item items =>
    obtain ⟨token, tokens, htokens, hkind⟩ := (hall item List.mem_cons_self).first
    intro helse
    rw [List.flatMap_cons, htokens] at helse
    obtain hkind' : token.kind = .wordElse := by simpa using helse
    exact hkind (by rw [hkind']; decide)

theorem length_le_behind {token : Token} {n : Nat} (h : (tokens ++ token :: rest).length ≤ n) :
    rest.length ≤ n := by
  rw [List.length_append, List.length_cons] at h
  omega

/-- A block that is not at its end goes on with a statement. -/
theorem blockStatements_step {stmt : Parser Stmt} {token : Token} {bound : Nat}
    (h : token.kind ∉ ends) :
    blockStatements stmt (bound + 1) ⟨token :: rest, stop⟩ =
      (stmt >>= fun first => blockStatements stmt bound >>= fun result =>
        pure (first :: result.1, result.2)) ⟨token :: rest, stop⟩ := by
  rw [blockStatements]
  refine current_eq (congrFun ?_ _)
  split
  · next hkind => exact absurd (by rw [hkind]; decide) h
  · next hkind => exact absurd (by rw [hkind]; decide) h
  · rfl

theorem follows_block {tokens : List Token} {body : Block} (h : DerivesBlock tokens body) :
    Follows 0 (tokens ++ rest) := by
  obtain ⟨hopening, _, _⟩ := h
  exact follows_of_kind hopening rfl

section

variable {stmt : Parser Stmt} {n : Nat}
  (hstmt : ∀ (tokens rest : List Token) (st : Stmt), DerivesStmt tokens st → NoElse rest →
    (tokens ++ rest).length ≤ n → Cursor.Proper ⟨tokens ++ rest, stop⟩ →
    stmt ⟨tokens ++ rest, stop⟩ = .ok st ⟨rest, stop⟩)

include hstmt

theorem blockStatements_eq {items : List (List Token × Stmt)} {closing : Token}
    (hall : ∀ item ∈ items, DerivesStmt item.1 item.2) (hclosing : closing.kind = .closeCurly)
    {bound : Nat} (hbound : (items.flatMap Prod.fst ++ closing :: rest).length ≤ bound)
    (hn : (items.flatMap Prod.fst ++ closing :: rest).length ≤ n)
    (hproper : Cursor.Proper ⟨items.flatMap Prod.fst ++ closing :: rest, stop⟩) :
    blockStatements stmt bound ⟨items.flatMap Prod.fst ++ closing :: rest, stop⟩ =
      .ok (items.map Prod.snd, closing) ⟨rest, stop⟩ := by
  obtain ⟨bound, rfl⟩ := exists_succ (by simp) hbound
  induction items generalizing bound with
  | nil =>
    rw [blockStatements]
    apply current_eq
    simp only [hclosing]
    rfl
  | cons item items ih =>
    obtain ⟨tokens, st⟩ := item
    have hst : DerivesStmt tokens st := hall _ List.mem_cons_self
    have hall' (item : List Token × Stmt) (hmem : item ∈ items) : DerivesStmt item.1 item.2 :=
      hall item (List.mem_cons_of_mem _ hmem)
    have hnext : NoElse (items.flatMap Prod.fst ++ closing :: rest) :=
      noElse_flatMap hall' (by simp [NoElse, hclosing])
    simp only [List.flatMap_cons, List.append_assoc] at hbound hn hproper ⊢
    have hfirst := hstmt tokens _ st hst hnext hn hproper
    obtain ⟨token, tokens, rfl, hkind⟩ := hst.first
    simp only [List.cons_append, List.length_cons, List.length_append] at hbound hn
    obtain ⟨bound, rfl⟩ := Nat.exists_eq_add_one_of_ne_zero (n := bound) (by omega)
    have hlength : (items.flatMap Prod.fst ++ closing :: rest).length ≤ bound + 1 ∧
        (items.flatMap Prod.fst ++ closing :: rest).length ≤ n := by
      simp only [List.length_append, List.length_cons]
      omega
    have hrest := ih hall' hlength.2 (proper_of_append hproper) bound hlength.1
    exact (blockStatements_step hkind).trans (bind_eq hfirst (bind_eq hrest rfl))

theorem block_eq {body : Block} (h : DerivesBlock tokens body) {bound : Nat}
    (hbound : (tokens ++ rest).length ≤ bound + 1) (hn : (tokens ++ rest).length ≤ n + 1)
    (hproper : Cursor.Proper ⟨tokens ++ rest, stop⟩) :
    block stmt bound ⟨tokens ++ rest, stop⟩ = .ok body ⟨rest, stop⟩ := by
  obtain ⟨hopening, hall, hclosing⟩ := h
  simp only [List.cons_append, List.append_assoc, List.nil_append, List.length_cons]
    at hbound hn hproper ⊢
  have hstatements := blockStatements_eq hstmt hall hclosing (Nat.le_of_succ_le_succ hbound)
    (Nat.le_of_succ_le_succ hn) (proper_of_cons hproper)
  exact bind_eq (expectBecause_eq hopening) (bind_eq hstatements rfl)

theorem conditional_eq {branch : Conditional} (h : DerivesConditional tokens branch)
    (hnext : NoElse rest) {bound : Nat} (hbound : (tokens ++ rest).length ≤ bound)
    (hn : (tokens ++ rest).length ≤ n + 1) (hproper : Cursor.Proper ⟨tokens ++ rest, stop⟩) :
    conditional stmt bound ⟨tokens ++ rest, stop⟩ = .ok branch ⟨rest, stop⟩ := by
  induction bound generalizing tokens branch with
  | zero =>
    obtain ⟨token, tokens, rfl, -⟩ := h.first
    exact absurd hbound (Nat.not_succ_le_zero _)
  | succ bound ih =>
    have inside {opening : Token} {tokens tokens' : List Token}
        (hbound : (opening :: (tokens ++ tokens')).length ≤ bound + 1)
        (hn : (opening :: (tokens ++ tokens')).length ≤ n + 1) :
        tokens'.length ≤ bound ∧ tokens'.length ≤ n := by
      simp only [List.length_cons, List.length_append] at hbound hn
      omega
    cases h with
    | plain _ he hbody =>
      simp only [List.cons_append, List.append_assoc] at hbound hn hproper ⊢
      have hlength := inside hbound hn
      have hproper := proper_of_cons hproper
      have hblock := block_eq hstmt hbody (Nat.le_succ_of_le hlength.1)
        (Nat.le_succ_of_le hlength.2) (proper_of_append hproper)
      refine bind_eq (p := advance) rfl (bind_eq (expr_eq he (follows_block hbody) hproper) ?_)
      refine bind_eq hblock (bind_eq (p := kind) rfl (else_eq ?_ rfl))
      exact kind_ne_else hproper.stop hnext
    | withBlock _ he hbody hword helse =>
      simp only [List.cons_append, List.append_assoc] at hbound hn hproper ⊢
      have hlength := inside hbound hn
      have hproper := proper_of_cons hproper
      have hproper' := proper_of_append hproper
      have hblock := block_eq hstmt hbody (Nat.le_succ_of_le hlength.1)
        (Nat.le_succ_of_le hlength.2) hproper'
      have helseBlock := block_eq hstmt helse (Nat.le_succ_of_le (length_le_behind hlength.1))
        (Nat.le_succ_of_le (length_le_behind hlength.2))
        (proper_of_cons (proper_of_append hproper'))
      obtain ⟨hopening, _, _⟩ := helse
      refine bind_eq (p := advance) rfl (bind_eq (expr_eq he (follows_block hbody) hproper) ?_)
      refine bind_eq hblock (kind_eq (then_eq hword (skip_eq (kind_eq (else_eq ?_ ?_)))))
      · rw [hopening]
        decide
      · exact bind_eq helseBlock rfl
    | withConditional _ he hbody hword helse =>
      simp only [List.cons_append, List.append_assoc] at hbound hn hproper ⊢
      have hlength := inside hbound hn
      have hproper := proper_of_cons hproper
      have hproper' := proper_of_append hproper
      have hblock := block_eq hstmt hbody (Nat.le_succ_of_le hlength.1)
        (Nat.le_succ_of_le hlength.2) hproper'
      have hbranch := ih helse (length_le_behind hlength.1)
        (Nat.le_succ_of_le (length_le_behind hlength.2))
        (proper_of_cons (proper_of_append hproper'))
      obtain ⟨token, tokens, rfl, hkind⟩ := helse.first
      refine bind_eq (p := advance) rfl (bind_eq (expr_eq he (follows_block hbody) hproper) ?_)
      refine bind_eq hblock (kind_eq (then_eq hword (skip_eq (kind_eq (then_eq hkind ?_)))))
      exact bind_eq hbranch rfl

theorem loop_eq {opening : Token} {bodyTokens : List Token} {e : Expr} {body : Block}
    (he : Derives .logical tokens e) (hbody : DerivesBlock bodyTokens body)
    (hn : (tokens ++ (bodyTokens ++ rest)).length ≤ n)
    (hproper : Cursor.Proper ⟨opening :: (tokens ++ (bodyTokens ++ rest)), stop⟩) :
    loop stmt n ⟨opening :: (tokens ++ (bodyTokens ++ rest)), stop⟩ =
      .ok (.loop e body ⟨opening.span.start, body.span.stop⟩) ⟨rest, stop⟩ := by
  have hproper := proper_of_cons hproper
  have hbound : (bodyTokens ++ rest).length ≤ n + 1 := by
    rw [List.length_append] at hn
    omega
  have hblock := block_eq hstmt hbody hbound hbound (proper_of_append hproper)
  apply bind_eq (p := advance) rfl
  exact bind_eq (expr_eq he (follows_block hbody) hproper) (bind_eq hblock rfl)

theorem function_eq {opening token left right : Token} {items : List (List Token × Parameter)}
    {returnTokens bodyTokens : List Token} {returns : Option TypeExpr} {body : Block}
    (hname : token.kind = .identifier) (hleft : left.kind = .openParen)
    (hall : ∀ item ∈ items, DerivesParameter item.1 item.2)
    (hcommas : Commas (items.map Prod.fst) tokens) (hright : right.kind = .closeParen)
    (hreturns : DerivesAscription .arrow returnTokens returns)
    (hbody : DerivesBlock bodyTokens body)
    (hn : (tokens ++ right :: (returnTokens ++ (bodyTokens ++ rest))).length ≤ n)
    (hproper : Cursor.Proper
      ⟨opening :: token :: left :: (tokens ++ right :: (returnTokens ++ (bodyTokens ++ rest))),
        stop⟩) :
    function stmt n
        ⟨opening :: token :: left :: (tokens ++ right :: (returnTokens ++ (bodyTokens ++ rest))),
          stop⟩ =
      .ok (.function (name token) (items.map Prod.snd) returns body
        ⟨opening.span.start, body.span.stop⟩) ⟨rest, stop⟩ := by
  have hproper := proper_of_cons (proper_of_cons (proper_of_cons hproper))
  have hparameters := items_eq "expected ',' between parameters" (readsItems_parameter n stop)
    hcommas hall hright hn hn hproper
  have hbound : (bodyTokens ++ rest).length ≤ n + 1 := by
    simp only [List.length_append, List.length_cons] at hn ⊢
    omega
  have hblock := block_eq hstmt hbody hbound hbound
    (proper_of_append (proper_of_cons (proper_of_append hproper)))
  have hresult : ascription? .arrow ⟨returnTokens ++ (bodyTokens ++ rest), stop⟩ =
      .ok returns ⟨bodyTokens ++ rest, stop⟩ := by
    obtain ⟨hopening, _, _⟩ := hbody
    exact ascription?_eq hreturns (by rw [hopening]; decide)
  refine bind_eq (p := advance) rfl (bind_eq (identifier_eq hname) (bind_eq (expect_eq hleft) ?_))
  exact bind_eq hparameters (bind_eq hresult (bind_eq hblock rfl))

end

/-! ### All statements -/

/-- Without a keyword in front the second token decides. -/
theorem stmtWithin_of_opening {token : Token} {bound : Nat} (h : token.kind ∈ openings) :
    stmtWithin (bound + 1) ⟨token :: rest, stop⟩ =
      (startsReassignment >>= fun starts => if starts then reassignment else expression)
        ⟨token :: rest, stop⟩ := by
  rw [stmtWithin]
  refine kind_eq (congrFun ?_ _)
  split
  · next hkind => exact absurd h (by rw [hkind]; decide)
  · next hkind => exact absurd h (by rw [hkind]; decide)
  · next hkind => exact absurd h (by rw [hkind]; decide)
  · next hkind => exact absurd h (by rw [hkind]; decide)
  · next hkind => exact absurd h (by rw [hkind]; decide)
  · next hkind => exact absurd h (by rw [hkind]; decide)
  · next hkind => exact absurd h (by rw [hkind]; decide)
  · next hkind => exact absurd h (by rw [hkind]; decide)
  · rfl

theorem stmtWithin_of_assigns {token operator : Token} {bound : Nat}
    (htoken : token.kind = .identifier) (hoperator : operator.kind.Assigns) :
    stmtWithin (bound + 1) ⟨token :: operator :: rest, stop⟩ =
      reassignment ⟨token :: operator :: rest, stop⟩ := by
  rw [stmtWithin_of_opening (by rw [htoken]; decide)]
  refine bind_eq (startsReassignment_eq _) (then_eq ?_ rfl)
  exact decide_eq_true ⟨htoken, hoperator⟩

theorem stmtWithin_of_expr {closing : Token} {e : Expr} {bound : Nat}
    (he : Derives .logical tokens e) (hclosing : closing.kind = .semicolon) :
    stmtWithin (bound + 1) ⟨tokens ++ closing :: rest, stop⟩ =
      expression ⟨tokens ++ closing :: rest, stop⟩ := by
  obtain ⟨token, tokens, rfl, hkind⟩ := he.first
  apply (stmtWithin_of_opening hkind).trans
  refine bind_eq (startsReassignment_eq _) (else_eq (fun hstarts => ?_) rfl)
  obtain ⟨-, hassigns⟩ := of_decide_eq_true hstarts
  cases tokens with
  | nil =>
    replace hassigns : closing.kind.Assigns := hassigns
    rw [hclosing] at hassigns
    exact absurd hassigns (by decide)
  | cons operator tokens => exact he.not_assigns operator (by simp) hassigns

theorem stmtWithin_eq {bound : Nat} (tokens rest : List Token) (st : Stmt)
    (h : DerivesStmt tokens st) (hnext : NoElse rest) (hbound : (tokens ++ rest).length ≤ bound)
    (hproper : Cursor.Proper ⟨tokens ++ rest, stop⟩) :
    stmtWithin bound ⟨tokens ++ rest, stop⟩ = .ok st ⟨rest, stop⟩ := by
  induction bound generalizing tokens rest st with
  | zero =>
    obtain ⟨token, tokens, rfl, -⟩ := h.first
    exact absurd hbound (Nat.not_succ_le_zero _)
  | succ bound ih =>
    cases h with
    | importNames hkind hnames hword hpath hclosing =>
      simp only [List.cons_append, List.append_assoc, List.nil_append]
      rw [stmtWithin]
      apply kind_eq
      simp only [hkind]
      exact importNames_eq hnames hword hpath hclosing
    | declaration h =>
      have heq := declaration_eq h hproper
      obtain ⟨token, tokens, htokens, hkind⟩ := h.first
      obtain ⟨rfl, rfl⟩ := List.cons.inj htokens
      simp only [List.cons_append] at heq ⊢
      rw [stmtWithin]
      apply kind_eq
      obtain hkind | hkind := hkind
      · simp only [hkind]
        exact bind_eq (p := position) rfl heq
      · simp only [hkind]
        exact bind_eq (p := position) rfl heq
    | globalDeclaration hkind h =>
      simp only [List.cons_append] at hproper ⊢
      rw [stmtWithin]
      apply kind_eq
      simp only [hkind]
      exact globalDeclaration_eq h hproper
    | reassignment hkind hequals he hclosing =>
      simp only [List.cons_append, List.append_assoc, List.nil_append] at hproper ⊢
      apply (stmtWithin_of_assigns hkind (.inl hequals)).trans
      exact assignment_eq hequals he hclosing hproper
    | compound hkind hop he hclosing =>
      simp only [List.cons_append, List.append_assoc, List.nil_append] at hproper ⊢
      apply (stmtWithin_of_assigns hkind (.inr (by rw [hop]; rfl))).trans
      exact compound_eq hop he hclosing hproper
    | function hkind hname hleft hall hcommas hright hreturns hbody =>
      simp only [List.cons_append, List.append_assoc] at hbound hproper ⊢
      rw [stmtWithin]
      apply kind_eq
      simp only [hkind]
      refine function_eq ih hname hleft hall hcommas hright hreturns hbody ?_ hproper
      simp only [List.length_cons] at hbound
      omega
    | returnNothing hkind hclosing =>
      rw [stmtWithin]
      apply kind_eq
      simp only [hkind]
      exact returnNothing_eq hclosing
    | returnValue hkind he hclosing =>
      simp only [List.cons_append, List.append_assoc, List.nil_append] at hproper ⊢
      rw [stmtWithin]
      apply kind_eq
      simp only [hkind]
      exact returnValue_eq he hclosing hproper
    | conditional h =>
      have heq := conditional_eq ih h hnext hbound hbound hproper
      obtain ⟨token, tokens, rfl, hkind⟩ := h.first
      simp only [List.cons_append] at heq ⊢
      rw [stmtWithin]
      apply kind_eq
      simp only [hkind]
      exact bind_eq heq rfl
    | loop hkind he hbody =>
      simp only [List.cons_append, List.append_assoc] at hbound hproper ⊢
      rw [stmtWithin]
      apply kind_eq
      simp only [hkind]
      exact loop_eq ih he hbody (Nat.le_of_succ_le_succ hbound) hproper
    | expression he hclosing =>
      simp only [List.append_assoc, List.cons_append, List.nil_append] at hproper ⊢
      exact (stmtWithin_of_expr he hclosing).trans (expression_eq he hclosing hproper)

theorem stmt_eq {st : Stmt} (h : DerivesStmt tokens st) (hnext : NoElse rest)
    (hproper : Cursor.Proper ⟨tokens ++ rest, stop⟩) :
    stmt ⟨tokens ++ rest, stop⟩ = .ok st ⟨rest, stop⟩ :=
  stmtWithin_eq tokens rest st h hnext (Nat.le_refl _) hproper

end Script.Parser
