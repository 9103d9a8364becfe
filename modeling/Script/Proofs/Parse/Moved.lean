import Script.Proofs.Parse.Reported
import Script.Proofs.Syntax.Moved
import Script.Proofs.Syntax.Places

/-!
# Reading tokens at other places

No parser looks at where a token stands. In front of tokens that are moved each of them comes to its
result moved, or fails for the same cause at the moved place. So tokens of the same kinds and texts
give programs that differ in places alone, and a program stands where its tokens do.
-/

namespace Script

section

variable (δ : Displacement)

def Token.move (token : Token) : Token := { token with span := token.span.move δ }

def Error.move (e : Error) : Error := { e with position := e.position.move δ }

def Cursor.move (s : Cursor) : Cursor := ⟨s.rest.map (Token.move δ), s.stop.move δ⟩

theorem Expr.span_move (expr : Expr) : (expr.move δ).span = expr.span.move δ := by
  cases expr <;> simp only [move, span]

theorem Block.span_move (block : Block) : (block.move δ).span = block.span.move δ := by
  cases block
  simp only [move, span]

theorem Conditional.span_move (branch : Conditional) :
    (branch.move δ).span = branch.span.move δ := by
  cases branch
  simp only [move, span]

end

namespace Cursor

variable (δ : Displacement) (s : Cursor)

theorem current_move : (s.move δ).current = s.current.move δ := by
  obtain ⟨_ | _, stop⟩ := s <;> rfl

theorem nextKind_move : (s.move δ).nextKind = s.nextKind := by
  obtain ⟨_ | ⟨_, _ | _⟩, stop⟩ := s <;> rfl

theorem advance_move : (s.move δ).advance = s.advance.move δ := by
  obtain ⟨_ | _, stop⟩ := s <;> rfl

theorem braceDepth_move (tokens : List Token) :
    braceDepth (tokens.map (Token.move δ)) = braceDepth tokens := by
  rw [braceDepth, braceDepth, List.foldl_map]
  rfl

theorem skipStatement_move (depth : Int) (tokens : List Token) :
    skipStatement depth (tokens.map (Token.move δ)) =
      (skipStatement depth tokens).map (Token.move δ) := by
  induction tokens generalizing depth with
  | nil => rfl
  | cons token rest ih =>
    have hnext : (rest.map (Token.move δ)).head?.map (·.kind) = rest.head?.map (·.kind) := by
      cases rest <;> rfl
    rw [List.map_cons, skipStatement, skipStatement, hnext]
    simp only [Token.move, ih]
    split
    · split <;> rfl
    · rfl
    · split <;> rfl
    · rfl

theorem recover_move (failed : Cursor) :
    (s.move δ).recover (failed.move δ) = (s.recover failed).move δ := by
  simp only [recover, move, List.length_map, ← List.map_take, braceDepth_move, skipStatement_move]

end Cursor

namespace Parser

variable {δ : Displacement} {g : α → α'} {h : β → β'}

/-- In front of moved tokens the second parser does what the first one does without: it comes to the
result that `g` tells, or fails for the same cause. -/
def Shifts (δ : Displacement) (g : α → α') (p : Parser α) (q : Parser α') : Prop :=
  ∀ s, (∃ a s', p s = .ok a s' ∧ q (s.move δ) = .ok (g a) (s'.move δ)) ∨
    ∃ cause position s', p s = .error (.located cause position) s' ∧
      q (s.move δ) = .error (.located cause (position.move δ)) (s'.move δ)

namespace Shifts

theorem pure {a : α} {a' : α'} (ha : a' = g a) : Shifts δ g (Pure.pure a) (Pure.pure a') :=
  fun s => .inl ⟨a, s, rfl, ha ▸ rfl⟩

theorem bind {p : Parser α} {q : Parser α'} {k : α → Parser β} {k' : α' → Parser β'}
    (hp : Shifts δ g p q) (hk : ∀ a, Shifts δ h (k a) (k' (g a))) :
    Shifts δ h (p >>= k) (q >>= k') := by
  intro s
  obtain ⟨a, s', hp, hq⟩ | ⟨cause, position, s', hp, hq⟩ := hp s
  · have hp' : (p >>= k) s = k a s' := by
      simp only [Bind.bind, EStateM.bind, hp]
    have hq' : (q >>= k') (s.move δ) = k' (g a) (s'.move δ) := by
      simp only [Bind.bind, EStateM.bind, hq]
    rw [hp', hq']
    exact hk a s'
  · refine .inr ⟨cause, position, s', ?_, ?_⟩
    · simp only [Bind.bind, EStateM.bind, hp]
    · simp only [Bind.bind, EStateM.bind, hq]

theorem ite {c : Prop} [Decidable c] {p p' : Parser α} {q q' : Parser α'} (hp : Shifts δ g p q)
    (hp' : Shifts δ g p' q') : Shifts δ g (if c then p else p') (if c then q else q') := by
  split
  · exact hp
  · exact hp'

theorem current : Shifts δ (Token.move δ) Parser.current Parser.current :=
  fun s => .inl ⟨s.current, s, rfl, by rw [← Cursor.current_move]; rfl⟩

theorem kind : Shifts δ id Parser.kind Parser.kind :=
  fun s => .inl ⟨s.current.kind, s, rfl, by
    rw [Parser.kind, Cursor.current_move]
    rfl⟩

theorem nextKind : Shifts δ id Parser.nextKind Parser.nextKind :=
  fun s => .inl ⟨s.nextKind, s, rfl, by
    rw [Parser.nextKind, Cursor.nextKind_move]
    rfl⟩

theorem position : Shifts δ (Position.move δ) Parser.position Parser.position :=
  fun s => .inl ⟨s.current.span.start, s, rfl, by
    rw [Parser.position, Cursor.current_move]
    rfl⟩

theorem advance : Shifts δ (Token.move δ) Parser.advance Parser.advance :=
  fun s => .inl ⟨s.current, s.advance, rfl, by
    rw [Parser.advance, Cursor.current_move, Cursor.advance_move]⟩

theorem skip : Shifts δ id Parser.skip Parser.skip :=
  fun s => .inl ⟨(), s.advance, rfl, by rw [Parser.skip, Cursor.advance_move, id]⟩

theorem failWith {cause : Token → Cause} (hcause : ∀ token, cause (token.move δ) = cause token) :
    Shifts δ g (Parser.failWith cause) (Parser.failWith cause) :=
  fun s => .inr ⟨cause s.current, s.current.span.start, s, rfl, by
    rw [Parser.failWith, Cursor.current_move, hcause]
    rfl⟩

theorem unexpected : Shifts δ g Parser.unexpected Parser.unexpected :=
  failWith fun _ => rfl

theorem unexpectedBecause (message : String) :
    Shifts δ g (Parser.unexpectedBecause message) (Parser.unexpectedBecause message) :=
  failWith fun _ => rfl

theorem bounded {p : Nat → Parser α} {q : Nat → Parser α'}
    (h : ∀ bound, Shifts δ g (p bound) (q bound)) :
    Shifts δ g (Parser.bounded p) (Parser.bounded q) := by
  intro s
  have hlength : (s.move δ).rest.length = s.rest.length := List.length_map ..
  rw [Parser.bounded, Parser.bounded, hlength]
  exact h s.rest.length s

theorem expect (kind : TokenKind) :
    Shifts δ (Token.move δ) (Parser.expect kind) (Parser.expect kind) :=
  current.bind fun _ => ite advance unexpected

theorem expectBecause (kind : TokenKind) (message : String) :
    Shifts δ (Token.move δ) (Parser.expectBecause kind message)
      (Parser.expectBecause kind message) :=
  current.bind fun _ => ite advance (unexpectedBecause message)

end Shifts

/-! ### Expressions -/

theorem shifts_items {item : Parser α} {item' : Parser α'} (hitem : Shifts δ g item item')
    (close : TokenKind) (message : String) (bound : Nat) :
    Shifts δ (Prod.map (List.map g) (Token.move δ)) (items item close message bound)
      (items item' close message bound) := by
  induction bound with
  | zero => exact .unexpected
  | succ bound ih =>
    rw [items, items]
    refine .bind .current fun next => .ite (.bind .skip fun _ => .pure rfl) ?_
    refine .bind hitem fun a => .bind .current fun next => .ite ?_ (.ite ?_ ?_)
    · exact .bind .skip fun _ => .bind ih fun _ => .pure rfl
    · exact .bind .skip fun _ => .pure rfl
    · exact .unexpectedBecause message

section

variable {inner inner' : ExprReader}
  (hinner : ∀ power, Shifts δ (Expr.move δ) (inner power) (inner' power))

include hinner

theorem shifts_operand (bound : Nat) :
    Shifts δ (Expr.move δ) (operand inner bound) (operand inner' bound) := by
  rw [operand, operand]
  refine .bind .current fun token => ?_
  dsimp only [Token.move]
  split
  · split
    · exact .bind .skip fun _ => .pure (by rw [Expr.move])
    · exact .failWith fun _ => rfl
  · exact .bind .skip fun _ => .pure (by rw [Expr.move])
  · exact .bind .skip fun _ => .pure (by rw [Expr.move])
  · exact .bind .skip fun _ => .pure (by rw [Expr.move])
  · exact .bind .skip fun _ => .pure (by rw [Expr.move])
  · exact .bind .skip fun _ => .bind (hinner _) fun _ => .bind (.expect _) fun _ => .pure rfl
  · refine .bind .skip fun _ => .bind (shifts_items (hinner _) _ _ bound) fun _ => .pure ?_
    rw [Expr.move, Expr.moveAll_eq_map]
    rfl
  · split
    · refine .bind .skip fun _ => .bind (hinner _) fun right => .pure ?_
      rw [Expr.move, Expr.span_move]
      rfl
    · exact .unexpected

theorem shifts_extend (power : Power) (bound : Nat) (left : Expr) :
    Shifts δ (Expr.move δ) (extend inner power bound left)
      (extend inner' power bound (left.move δ)) := by
  induction bound generalizing left with
  | zero => exact .pure rfl
  | succ bound ih =>
    rw [extend, extend]
    refine .bind .current fun token => .ite (.pure rfl) ?_
    dsimp only [Token.move]
    split
    · exact .unexpected
    · next op _ =>
      refine .bind .skip fun _ => .bind (hinner _) fun right => ?_
      rw [Expr.span_move, Expr.span_move]
      have hleft := ih (.binary left ⟨op, token.text, token.span⟩ right
        ⟨left.span.start, right.span.stop⟩)
      rw [Expr.move] at hleft
      exact hleft
    · refine .bind .skip fun _ => .bind (shifts_items (hinner _) _ _ bound) fun found => ?_
      rw [Expr.span_move]
      have hleft := ih (.call left found.1 ⟨left.span.start, found.2.span.stop⟩)
      rw [Expr.move, Expr.moveAll_eq_map] at hleft
      exact hleft
    · refine .bind .skip fun _ => .bind (hinner _) fun index => .bind (.expect _) fun closing => ?_
      rw [Expr.span_move]
      have hleft := ih (.index left index ⟨left.span.start, closing.span.stop⟩)
      rw [Expr.move] at hleft
      exact hleft

end

theorem shifts_exprWithin (bound : Nat) (power : Power) :
    Shifts δ (Expr.move δ) (exprWithin bound power) (exprWithin bound power) := by
  induction bound generalizing power with
  | zero => exact .unexpected
  | succ bound ih =>
    rw [exprWithin]
    exact .bind (shifts_operand ih bound) fun left => shifts_extend ih power bound left

theorem shifts_expr : Shifts δ (Expr.move δ) expr expr :=
  .bounded fun bound => shifts_exprWithin bound .lowest

/-! ### Names and types -/

theorem shifts_identifier : Shifts δ (Identifier.move δ) identifier identifier :=
  .bind (.expect _) fun _ => .pure rfl

theorem shifts_typeSuffixes (bound : Nat) (element : TypeExpr) :
    Shifts δ (TypeExpr.move δ) (typeSuffixes bound element)
      (typeSuffixes bound (element.move δ)) := by
  induction bound generalizing element with
  | zero => exact .pure rfl
  | succ bound ih =>
    rw [typeSuffixes, typeSuffixes]
    refine .bind .kind fun kind => ?_
    dsimp only [id]
    split
    · exact .bind .skip fun _ => .bind (.expect _) fun _ => ih (.listOf element)
    · exact .unexpected
    · exact .pure rfl

theorem shifts_typeExpr : Shifts δ (TypeExpr.move δ) typeExpr typeExpr :=
  .bind (.expect _) fun token =>
    .bounded fun bound => shifts_typeSuffixes bound (.named token.text token.span.start)

theorem shifts_ascription? (introducer : TokenKind) :
    Shifts δ (Option.map (TypeExpr.move δ)) (ascription? introducer) (ascription? introducer) :=
  .bind .kind fun _ => .ite (.bind .skip fun _ => .bind shifts_typeExpr fun _ => .pure rfl)
    (.pure rfl)

theorem shifts_parameter : Shifts δ (Parameter.move δ) parameter parameter :=
  .bind shifts_identifier fun _ => .bind (shifts_ascription? _) fun _ => .pure rfl

theorem shifts_separated {item : Parser α} {item' : Parser α'} (hitem : Shifts δ g item item')
    (separator : TokenKind) (bound : Nat) :
    Shifts δ (List.map g) (separated item separator bound) (separated item' separator bound) := by
  induction bound with
  | zero => exact .bind hitem fun _ => .pure rfl
  | succ bound ih =>
    rw [separated, separated]
    refine .bind hitem fun a => .bind .kind fun _ => .ite ?_ (.pure rfl)
    exact .bind .skip fun _ => .bind ih fun _ => .pure rfl

/-! ### Statements -/

theorem shifts_declaration (start : Position) (global : Bool) :
    Shifts δ (Stmt.move δ) (declaration start global) (declaration (start.move δ) global) := by
  refine .bind .advance fun opening => .bind (.expectBecause _ _) fun name => ?_
  refine .bind (shifts_ascription? _) fun ascription => .bind (.expectBecause _ _) fun _ => ?_
  refine .bind shifts_expr fun value => .bind (.expect _) fun closing => .pure ?_
  rw [Stmt.move]
  rfl

theorem shifts_globalDeclaration :
    Shifts δ (Stmt.move δ) globalDeclaration globalDeclaration := by
  refine .bind .advance fun first => .bind .kind fun kind => ?_
  dsimp only [id]
  split
  · exact shifts_declaration first.span.start true
  · exact shifts_declaration first.span.start true
  · exact .unexpectedBecause _

theorem shifts_reassignment : Shifts δ (Stmt.move δ) reassignment reassignment := by
  refine .bind .advance fun name => .bind .advance fun operator => ?_
  refine .bind shifts_expr fun right => .bind (.expect _) fun closing => .pure ?_
  rw [Stmt.move]
  dsimp only [Token.move]
  split
  · rw [Expr.move, Expr.move, Expr.span_move]
    rfl
  · rfl

theorem shifts_importNames : Shifts δ (Stmt.move δ) importNames importNames := by
  have hpart : Shifts δ id (do return (← expect .identifier).text)
      (do return (← expect .identifier).text) := .bind (.expect _) fun _ => .pure rfl
  refine .bind .advance fun first => ?_
  refine .bind (.bounded fun bound => shifts_separated shifts_identifier _ bound) fun names => ?_
  refine .bind (.expectBecause _ _) fun _ => ?_
  refine .bind (.bounded fun bound => shifts_separated hpart _ bound) fun path => ?_
  refine .bind (.expect _) fun closing => .pure ?_
  rw [Stmt.move, List.map_id]
  rfl

theorem shifts_returnValue : Shifts δ (Stmt.move δ) returnValue returnValue := by
  have hresult : Shifts δ (Option.map (Expr.move δ)) result? result? :=
    .bind .kind fun _ => .ite (.pure rfl) (.bind shifts_expr fun _ => .pure rfl)
  refine .bind .advance fun first => .bind hresult fun value => ?_
  refine .bind (.expect _) fun closing => .pure ?_
  rw [Stmt.move]
  rfl

theorem shifts_expression : Shifts δ (Stmt.move δ) expression expression := by
  refine .bind shifts_expr fun value => .bind (.expect _) fun _ => .pure ?_
  rw [Stmt.move, Expr.span_move]

section

variable {inner inner' : Parser Stmt} (hinner : Shifts δ (Stmt.move δ) inner inner')

include hinner

theorem shifts_blockStatements (bound : Nat) :
    Shifts δ (Prod.map (List.map (Stmt.move δ)) (Token.move δ)) (blockStatements inner bound)
      (blockStatements inner' bound) := by
  induction bound with
  | zero => exact .unexpectedBecause _
  | succ bound ih =>
    rw [blockStatements, blockStatements]
    refine .bind .current fun next => ?_
    dsimp only [Token.move]
    split
    · exact .bind .skip fun _ => .pure rfl
    · exact .unexpectedBecause _
    · exact .bind hinner fun first => .bind ih fun _ => .pure rfl

theorem shifts_block (bound : Nat) :
    Shifts δ (Block.move δ) (block inner bound) (block inner' bound) := by
  refine .bind (.expectBecause _ _) fun opening => ?_
  refine .bind (shifts_blockStatements hinner bound) fun found => .pure ?_
  rw [Block.move, Stmt.moveAll_eq_map]
  rfl

theorem shifts_conditional (bound : Nat) :
    Shifts δ (Conditional.move δ) (conditional inner bound) (conditional inner' bound) := by
  induction bound with
  | zero => exact .unexpected
  | succ bound ih =>
    rw [conditional, conditional]
    refine .bind .advance fun first => .bind shifts_expr fun condition => ?_
    refine .bind (shifts_block hinner bound) fun body => .bind .kind fun _ => .ite ?_ ?_
    · refine .bind .skip fun _ => .bind .kind fun _ => .ite ?_ ?_
      · refine .bind ih fun branch => .pure ?_
        rw [Conditional.move, Otherwise.move, Conditional.span_move]
        rfl
      · refine .bind (shifts_block hinner bound) fun otherwise => .pure ?_
        rw [Conditional.move, Otherwise.move, Block.span_move]
        rfl
    · refine .pure ?_
      rw [Conditional.move, Otherwise.move, Block.span_move]
      rfl

theorem shifts_loop (bound : Nat) :
    Shifts δ (Stmt.move δ) (loop inner bound) (loop inner' bound) := by
  refine .bind .advance fun first => .bind shifts_expr fun condition => ?_
  refine .bind (shifts_block hinner bound) fun body => .pure ?_
  rw [Stmt.move, Block.span_move]
  rfl

theorem shifts_function (bound : Nat) :
    Shifts δ (Stmt.move δ) (function inner bound) (function inner' bound) := by
  refine .bind .advance fun first => .bind shifts_identifier fun name => ?_
  refine .bind (.expect _) fun _ => .bind (shifts_items shifts_parameter _ _ bound) fun found => ?_
  refine .bind (shifts_ascription? _) fun returns => ?_
  refine .bind (shifts_block hinner bound) fun body => .pure ?_
  rw [Stmt.move, Block.span_move]
  rfl

end

theorem shifts_startsReassignment : Shifts δ id startsReassignment startsReassignment :=
  .bind .nextKind fun _ => .bind .kind fun _ => .pure rfl

theorem shifts_stmtWithin (bound : Nat) :
    Shifts δ (Stmt.move δ) (stmtWithin bound) (stmtWithin bound) := by
  induction bound with
  | zero => exact .unexpected
  | succ bound ih =>
    rw [stmtWithin]
    refine .bind .kind fun kind => ?_
    dsimp only [id]
    split
    · exact .bind .position fun start => shifts_declaration start false
    · exact .bind .position fun start => shifts_declaration start false
    · exact shifts_globalDeclaration
    · exact shifts_importNames
    · exact .bind (shifts_conditional ih _) fun branch => .pure (by rw [Stmt.move])
    · exact shifts_loop ih bound
    · exact shifts_function ih bound
    · exact shifts_returnValue
    · exact .bind shifts_startsReassignment fun _ => .ite shifts_reassignment shifts_expression

theorem shifts_stmt : Shifts δ (Stmt.move δ) stmt stmt :=
  .bounded shifts_stmtWithin

/-! ### Programs -/

theorem programWithin_move (δ : Displacement) (bound : Nat) (s : Cursor) :
    programWithin bound (s.move δ) = ((programWithin bound s).1.map (Stmt.move δ),
      (programWithin bound s).2.map (Error.move δ)) := by
  induction bound generalizing s with
  | zero => rfl
  | succ bound ih =>
    by_cases hnil : s.rest = []
    · have hnil' : (s.move δ).rest = [] := List.map_eq_nil_iff.2 hnil
      rw [programWithin_nil hnil, programWithin_nil hnil']
      rfl
    · have hnil' : (s.move δ).rest ≠ [] := fun h => hnil (List.map_eq_nil_iff.1 h)
      obtain ⟨first, s', hstmt, hmoved⟩ | ⟨cause, position, s', hstmt, hmoved⟩ :=
        shifts_stmt (δ := δ) s
      · rw [programWithin_ok hnil hstmt, programWithin_ok hnil' hmoved, ih]
        rfl
      · rw [programWithin_error hnil hstmt, programWithin_error hnil' hmoved, Cursor.recover_move,
          ih]
        rfl

theorem outcome_move (δ : Displacement) (s : Cursor) :
    outcome (s.move δ) = ((outcome s).1.map (Stmt.move δ), (outcome s).2.map (Error.move δ)) := by
  have hlength : (s.move δ).rest.length = s.rest.length := List.length_map ..
  rw [outcome, hlength]
  exact programWithin_move δ s.rest.length s

/-- No statement is to blame for an error in reading. -/
theorem statement_of_programWithin (bound : Nat) (s : Cursor) :
    ∀ e ∈ (programWithin bound s).2, e.statement = none := by
  induction bound generalizing s with
  | zero => exact nofun
  | succ bound ih =>
    by_cases hnil : s.rest = []
    · rw [programWithin_nil hnil]
      exact nofun
    · obtain ⟨first, s', hstmt, -⟩ | ⟨cause, position, s', hstmt, -⟩ :=
        shifts_stmt (δ := .id) s
      · rw [programWithin_ok hnil hstmt]
        exact ih s'
      · rw [programWithin_error hnil hstmt]
        exact List.forall_mem_cons.2 ⟨rfl, ih _⟩

end Parser

/-! ### Source texts -/

theorem statement_of_tokensFrom {p : Position} {cs : List Char} {e : Error}
    (h : tokensFrom p cs = .error e) : e.statement = none := by
  fun_induction tokensFrom p cs with
  | case1 => cases h
  | case2 =>
    cases h
    rfl
  | case3 p c cs s hscan q hlexeme ih => exact ih h
  | case4 p c cs s hscan q kind text hlexeme ih =>
    cases htail : tokensFrom q s.rest with
    | ok tokens => simp [htail, Bind.bind, Except.bind, Pure.pure, Except.pure] at h
    | error e' =>
      simp only [htail, Bind.bind, Except.bind, Except.error.injEq] at h
      exact ih (htail.trans (h ▸ rfl))

/-- No statement is to blame for an error in reading a source text. -/
theorem statement_of_parseSource {source file : String} {errors : List Error}
    (h : parseSource source file = .error errors) : ∀ e ∈ errors, e.statement = none := by
  unfold parseSource parse at h
  split at h
  · next tokens _ =>
    dsimp only at h
    split at h
    · cases h
    · next houtcome =>
      cases h
      have hnone := Parser.statement_of_programWithin
        (Cursor.ofTokens tokens file).rest.length (Cursor.ofTokens tokens file)
      rwa [houtcome] at hnone
  · next e htokenize =>
    cases h
    intro e' hmem
    rw [List.mem_singleton.1 hmem]
    exact statement_of_tokensFrom htokenize

/-- The tokens in front of the end of the file and that end, where they are moved. -/
theorem Cursor.ofTokens_move (δ : Displacement) (tokens : List Token) (file : String) :
    (ofTokens tokens file).move δ =
      { rest := (tokens.map (Token.move δ)).takeWhile (·.kind ≠ .endOfFile)
        stop := match (tokens.map (Token.move δ)).dropWhile (·.kind ≠ .endOfFile) with
          | stop :: _ => stop
          | [] => .endOfFile ((tokens.map (Token.move δ)).getLast?.elim ((Position.start file).move δ)
            (·.span.stop)) } := by
  have hkind : (fun token : Token => decide (token.kind ≠ .endOfFile)) ∘ Token.move δ =
      fun token => decide (token.kind ≠ .endOfFile) := rfl
  rw [List.takeWhile_map, List.dropWhile_map, hkind, ofTokens, move, List.getLast?_map]
  congr 1
  cases tokens.dropWhile fun token => decide (token.kind ≠ .endOfFile) with
  | cons stop _ => rfl
  | nil => cases tokens.getLast? <;> rfl

/-- Reading the tokens of a file that does not change when it is moved. -/
theorem move_of_parse {δ : Displacement} {tokens : List Token} {file : String} {program : Block}
    (htokens : tokens.map (Token.move δ) = tokens)
    (hstart : (Position.start file).move δ = .start file)
    (h : parse tokens file = .ok program) : program.move δ = program := by
  have hcursor : (Cursor.ofTokens tokens file).move δ = Cursor.ofTokens tokens file := by
    rw [Cursor.ofTokens_move, htokens, hstart]
    rfl
  have houtcome := Parser.outcome_move δ (Cursor.ofTokens tokens file)
  unfold parse at h
  unfold Parser.outcome at houtcome
  rw [hcursor] at houtcome
  dsimp only at h
  split at h
  · next statements hread =>
    obtain rfl := Except.ok.inj h
    rw [hread] at houtcome
    have hstatements : statements.map (Stmt.move δ) = statements :=
      (congrArg Prod.fst houtcome).symm
    have hstop := congrArg (fun s : Cursor => s.stop.span.start) hcursor
    rw [Block.move, Stmt.moveAll_eq_map, hstatements, Span.move, hstart]
    exact congrArg (fun stop => Block.mk statements ⟨.start file, stop⟩) hstop
  · cases h

section

variable {δ : Displacement} {source file : String} (hδ : ∀ p : Position, p.In source file →
  p.move δ = p)

include hδ

theorem Laid.move_of {before cs : List Char} {tokens : List Token} (h : Laid file before cs tokens)
    (hsource : before ++ cs = source.toList) : tokens.map (Token.move δ) = tokens := by
  have hbehind (before after : List Char) (hsource : before ++ after = source.toList) :
      (Position.behind file before).move δ = .behind file before :=
    hδ _ (Position.in_behind after hsource)
  induction h with
  | @done before gap _ =>
    have hend := hbehind (before ++ gap) [] (by simpa using hsource)
    rw [List.map_singleton, Token.move, Token.endOfFile, Span.move, hend]
  | @token before gap lexeme rest t ts _ hcovers _ ih =>
    have hsource' : before ++ gap ++ lexeme ++ rest = source.toList := by simpa using hsource
    have hstart := hbehind (before ++ gap) (lexeme ++ rest) (by simpa using hsource')
    have hstop := hbehind (before ++ gap ++ lexeme) rest hsource'
    rw [List.map_cons, ih hsource', Token.move, hcovers.span, Span.move, hstart, hstop,
      ← hcovers.span]

/-- A program stays where it is if all of its text does. -/
theorem move_of_parseSource {program : Block} (h : parseSource source file = .ok program) :
    program.move δ = program := by
  unfold parseSource at h
  split at h
  · next tokens htokenize =>
    have hbehind : Position.behind file [] = .start file := by
      simp [Position.start, Position.behind]
    have hlaid : Laid file [] source.toList tokens := laid_of_tokensFrom (hbehind ▸ htokenize)
    have hstart := hδ (.behind file []) (Position.in_behind source.toList rfl)
    exact move_of_parse (hlaid.move_of hδ rfl) (hbehind ▸ hstart) h
  · cases h

end

theorem FitsCounters.move_counted {source file : String} (h : FitsCounters source) (p : Position)
    (hp : p.In source file) : p.move .counted = p := by
  obtain ⟨hoffset, -, hline⟩ := h.of_in hp
  rw [Position.move_counted, Nat.mod_eq_of_lt hoffset, Nat.mod_eq_of_lt hline]

theorem FitsCounters.move_onLines {source file : String} (h : FitsCounters source) (p : Position)
    (hp : p.In source file) : p.move .onLines = p := by
  obtain ⟨-, hpos, hline⟩ := h.of_in hp
  have hne : ¬p.line % UInt32.size = 0 := by
    rw [Nat.mod_eq_of_lt hline]
    omega
  rw [Position.move_onLines, if_neg hne]

/-- Tokens of the same kinds and texts give programs that differ in places alone, or else errors that
do. -/
theorem parse_alike {tokens tokens' : List Token} (file : String)
    (h : tokens.map (fun token => (token.kind, token.text)) =
      tokens'.map fun token => (token.kind, token.text)) :
    (∃ program program', parse tokens file = .ok program ∧ parse tokens' file = .ok program' ∧
      program.statements.map (Stmt.move .nowhere) =
        program'.statements.map (Stmt.move .nowhere)) ∨
    ∃ errors errors', parse tokens file = .error errors ∧ parse tokens' file = .error errors' ∧
      errors.map (Error.move .nowhere) = errors'.map (Error.move .nowhere) := by
  have hmove : Token.move .nowhere = (fun entry => ⟨entry.1, entry.2, ⟨.unknown, .unknown⟩⟩) ∘
      fun token : Token => (token.kind, token.text) := rfl
  have htokens : tokens.map (Token.move .nowhere) = tokens'.map (Token.move .nowhere) := by
    rw [hmove, ← List.map_map, h, List.map_map]
  have houtcome := Parser.outcome_move .nowhere (Cursor.ofTokens tokens file)
  have houtcome' := Parser.outcome_move .nowhere (Cursor.ofTokens tokens' file)
  rw [Cursor.ofTokens_move, htokens, ← Cursor.ofTokens_move, houtcome'] at houtcome
  obtain ⟨hstatements, herrors⟩ := Prod.mk.inj houtcome
  rcases hread : Parser.outcome (Cursor.ofTokens tokens file) with ⟨statements, errors⟩
  rcases hread' : Parser.outcome (Cursor.ofTokens tokens' file) with ⟨statements', errors'⟩
  rw [hread, hread'] at hstatements herrors
  by_cases hnil : errors = []
  · have hnil' : errors' = [] := by simpa [hnil] using herrors
    obtain ⟨span, hparse⟩ := (parse_of_outcome hread).1 hnil
    obtain ⟨span', hparse'⟩ := (parse_of_outcome hread').1 hnil'
    exact .inl ⟨_, _, hparse, hparse', hstatements.symm⟩
  · have hnil' : errors' ≠ [] := by
      rintro rfl
      exact hnil (List.map_eq_nil_iff.1 herrors.symm)
    exact .inr ⟨errors, errors', (parse_of_outcome hread).2 hnil, (parse_of_outcome hread').2 hnil',
      herrors.symm⟩

end Script
