import Script.Proofs.Parse.Places
import Script.Proofs.Parse.Progress

/-!
# Legible programs

The operators of a program that was read are written on one line, since their tokens are. And what
is reported about a text that cannot be read has messages of one line, and comes in the order of the
text.
-/

namespace Script

open Grammar

/-! ### Operators on one line -/

mutual

/-- All operators in the expression are written on one line. -/
def Expr.Legible : Expr → Prop
  | .number .. | .string .. | .boolean .. | .symbol .. => True
  | .list elements _ => Expr.AllLegible elements
  | .binary left operator right _ => left.Legible ∧ Unbroken operator.text ∧ right.Legible
  | .unary operator operand _ => Unbroken operator.text ∧ operand.Legible
  | .call callee arguments _ => callee.Legible ∧ Expr.AllLegible arguments
  | .index target position _ => target.Legible ∧ position.Legible

def Expr.AllLegible : List Expr → Prop
  | [] => True
  | expr :: exprs => expr.Legible ∧ Expr.AllLegible exprs

end

mutual

def Stmt.Legible : Stmt → Prop
  | .expression value _ | .declaration _ _ _ _ value _ | .reassignment _ value _ => value.Legible
  | .importNames .. | .returnValue none _ => True
  | .conditional branch => branch.Legible
  | .loop condition body _ => condition.Legible ∧ body.Legible
  | .function _ _ _ body _ => body.Legible
  | .returnValue (some value) _ => value.Legible

def Conditional.Legible : Conditional → Prop
  | .mk condition body otherwise _ => condition.Legible ∧ body.Legible ∧ otherwise.Legible

def Otherwise.Legible : Otherwise → Prop
  | .nothing => True
  | .block body => body.Legible
  | .conditional branch => branch.Legible

def Block.Legible : Block → Prop
  | .mk statements _ => Stmt.AllLegible statements

def Stmt.AllLegible : List Stmt → Prop
  | [] => True
  | stmt :: stmts => stmt.Legible ∧ Stmt.AllLegible stmts

end

theorem Expr.allLegible_iff {exprs : List Expr} :
    Expr.AllLegible exprs ↔ ∀ expr ∈ exprs, expr.Legible := by
  induction exprs with
  | nil => simp [AllLegible]
  | cons expr exprs ih => simp [AllLegible, ih]

theorem Stmt.allLegible_iff {stmts : List Stmt} :
    Stmt.AllLegible stmts ↔ ∀ stmt ∈ stmts, stmt.Legible := by
  induction stmts with
  | nil => simp [AllLegible]
  | cons stmt stmts ih => simp [AllLegible, ih]

theorem Stmt.allLegible_map {items : List (α × Stmt)} (h : ∀ item ∈ items, item.2.Legible) :
    Stmt.AllLegible (items.map Prod.snd) :=
  allLegible_iff.2 (List.forall_mem_map.2 h)

/-! ### What the grammar derives -/

/-- Tokens that stand on one line, but for what is decoded in strings. -/
def Token.Lined (tokens : List Token) : Prop :=
  ∀ token ∈ tokens, token.kind ≠ .string → Unbroken token.text

theorem Token.Lined.of_subset {tokens more : List Token} (h : Token.Lined more)
    (hsubset : tokens ⊆ more) : Token.Lined tokens :=
  fun token hmem => h token (hsubset hmem)

/-- A token that is an operator is no string. -/
theorem ne_string_of_some {kind : TokenKind} {op? : TokenKind → Option α} {op : α}
    (h : op? kind = some op) (hstring : op? .string = none) : kind ≠ .string := by
  rintro rfl
  cases hstring.symm.trans h

theorem Grammar.Commas.subset {phrases : List (List Token)} {tokens : List Token}
    (h : Commas phrases tokens) : ∀ phrase ∈ phrases, phrase ⊆ tokens := by
  induction h with
  | nil => exact nofun
  | last => simp
  | @cons phrase rest phrases comma _ _ ih =>
    refine List.forall_mem_cons.2 ⟨List.subset_append_left .., fun other hmem => ?_⟩
    refine List.Subset.trans (ih other hmem) ?_
    exact List.Subset.trans (List.subset_cons_self ..) (List.subset_append_right ..)

theorem unbroken_simpleOperatorText {text : String} (h : Unbroken text) :
    Unbroken (Parser.simpleOperatorText text) := by
  intro hmem
  rw [Parser.simpleOperatorText, String.toList_ofList, List.mem_reverse] at hmem
  exact h (List.mem_reverse.1 ((List.dropWhile_sublist _).mem hmem))

theorem Grammar.Commas.legible {items : List (List Token × Expr)} {tokens : List Token}
    (h : Commas (items.map Prod.fst) tokens) (hlined : Token.Lined tokens)
    (hitems : ∀ item ∈ items, Token.Lined item.1 → item.2.Legible) :
    Expr.AllLegible (items.map Prod.snd) := by
  refine Expr.allLegible_iff.2 (List.forall_mem_map.2 fun item hitem => ?_)
  exact hitems item hitem (hlined.of_subset (h.subset item.1 (List.mem_map_of_mem hitem)))

theorem Grammar.Derives.legible {level : Level} {tokens : List Token} {e : Expr}
    (h : Derives level tokens e) (hlined : Token.Lined tokens) : e.Legible := by
  induction h with
  | number | string | symbol | true | false => trivial
  | tighter _ ih => exact ih hlined
  | group _ _ _ ih => exact ih (hlined.of_subset (by grind))
  | list _ _ hcommas _ ih => exact hcommas.legible (hlined.of_subset (by grind)) ih
  | call _ _ _ hcommas _ ih ihItems =>
    exact ⟨ih (hlined.of_subset (by grind)),
      hcommas.legible (hlined.of_subset (by grind)) ihItems⟩
  | index _ _ _ _ ih ihIndex =>
    exact ⟨ih (hlined.of_subset (by grind)), ihIndex (hlined.of_subset (by grind))⟩
  | @unary token op _ e hop _ ih =>
    have htext := hlined token List.mem_cons_self (ne_string_of_some hop rfl)
    exact ⟨htext, ih (hlined.of_subset (by grind))⟩
  | @binary _ token op _ _ a b _ hop _ _ ihLeft ihRight =>
    have htext := hlined token (by simp) (ne_string_of_some hop rfl)
    exact ⟨ihLeft (hlined.of_subset (by grind)), htext,
      ihRight (hlined.of_subset (by grind))⟩

theorem Grammar.DerivesDeclaration.legible {start : Position} {global : Bool} {tokens : List Token}
    {st : Stmt} (h : DerivesDeclaration start global tokens st) (hlined : Token.Lined tokens) :
    st.Legible := by
  cases h with
  | mk _ _ _ _ he _ => exact he.legible (hlined.of_subset (by grind))

mutual

theorem Grammar.DerivesStmt.legible {tokens : List Token} {st : Stmt} (h : DerivesStmt tokens st) :
    Token.Lined tokens → st.Legible := by
  cases h with
  | importNames | returnNothing => exact fun _ => trivial
  | declaration h => exact h.legible
  | globalDeclaration _ h => exact fun hlined => h.legible (hlined.of_subset (by grind))
  | reassignment _ _ he _ => exact fun hlined => he.legible (hlined.of_subset (by grind))
  | @compound token operator closing _ tokens e _ hop he _ =>
    intro hlined
    have htext := hlined operator (by simp) (ne_string_of_some hop rfl)
    exact ⟨trivial, unbroken_simpleOperatorText htext,
      he.legible (hlined.of_subset (by grind))⟩
  | function _ _ _ _ _ _ _ hbody => exact fun hlined => hbody.legible (hlined.of_subset (by grind))
  | returnValue _ he _ => exact fun hlined => he.legible (hlined.of_subset (by grind))
  | conditional h => exact h.legible
  | loop _ he hbody =>
    intro hlined
    exact ⟨he.legible (hlined.of_subset (by grind)), hbody.legible (hlined.of_subset (by grind))⟩
  | expression he _ => exact fun hlined => he.legible (hlined.of_subset (by grind))
termination_by sizeOf st

theorem Grammar.DerivesConditional.legible {tokens : List Token} {branch : Conditional}
    (h : DerivesConditional tokens branch) : Token.Lined tokens → branch.Legible := by
  cases h with
  | plain _ he hbody =>
    intro hlined
    exact ⟨he.legible (hlined.of_subset (by grind)), hbody.legible (hlined.of_subset (by grind)),
      trivial⟩
  | withBlock _ he hbody _ helse =>
    intro hlined
    exact ⟨he.legible (hlined.of_subset (by grind)), hbody.legible (hlined.of_subset (by grind)),
      helse.legible (hlined.of_subset (by grind))⟩
  | withConditional _ he hbody _ helse =>
    intro hlined
    exact ⟨he.legible (hlined.of_subset (by grind)), hbody.legible (hlined.of_subset (by grind)),
      helse.legible (hlined.of_subset (by grind))⟩
termination_by sizeOf branch

theorem Grammar.DerivesBlock.legible {tokens : List Token} {body : Block}
    (h : DerivesBlock tokens body) : Token.Lined tokens → body.Legible := by
  cases h with
  | @mk opening closing items _ hall _ =>
    intro hlined
    refine Stmt.allLegible_map fun item hmem => (hall item hmem).legible ?_
    refine hlined.of_subset fun token htoken => ?_
    simp only [List.mem_cons, List.mem_append, List.mem_flatMap]
    exact .inr (.inl ⟨item, hmem, htoken⟩)
termination_by sizeOf body
decreasing_by
  have hlt := List.sizeOf_lt_of_mem (List.mem_map_of_mem (f := Prod.snd) hmem)
  simp
  omega

end

/-! ### Texts that are read -/

variable {source file : String}

theorem Laid.lined {before cs : List Char} {tokens : List Token} (h : Laid file before cs tokens) :
    Token.Lined tokens := by
  intro token hmem hkind
  by_cases hend : token.kind = .endOfFile
  · obtain ⟨body, rfl, hbody⟩ := h.endOfFile
    obtain hmem | hmem := List.mem_append.1 hmem
    · exact absurd hend (hbody token hmem)
    · rw [List.mem_singleton.1 hmem]
      show Unbroken "EOF"
      decide
  · obtain ⟨_, lexeme, _, -, hcovers⟩ := h.covers hmem hend
    have htext := hcovers.written.text_eq
    rw [if_neg hkind] at htext
    rw [htext, Unbroken, String.toList_ofList]
    exact hcovers.written.not_mem_newline

/-- All operators of a program that was read are written on one line. -/
theorem legible_of_parseSource {program : Block} (h : parseSource source file = .ok program) :
    Stmt.AllLegible program.statements := by
  obtain ⟨body, _, rfl, hlaid, @⟨items, hall⟩⟩ := derives_of_parseSource h
  refine Stmt.allLegible_map fun item hmem => (hall item hmem).legible ?_
  refine hlaid.lined.of_subset fun token htoken => List.mem_append_left _ ?_
  exact List.mem_flatMap.2 ⟨item, hmem, htoken⟩

/-! ### Texts that are not read -/

/-- A token is written with one character at least. -/
theorem Lexeme.Written.ne_nil {kind : TokenKind} {text : String} {lexeme : List Char}
    (h : (Lexeme.token kind text).Written lexeme) : lexeme ≠ [] := by
  cases h with
  | word => exact List.cons_ne_nil _ _
  | number hne => exact hne
  | literal => exact List.cons_ne_nil _ _
  | mark hmark =>
    obtain ⟨c, cs, rfl, -⟩ := mark_head hmark
    exact List.cons_ne_nil c cs

theorem Laid.increasing {before cs : List Char} {tokens : List Token}
    (h : Laid file before cs tokens) :
    tokens.Pairwise fun t u => t.span.start.offset < u.span.start.offset := by
  induction h with
  | done => exact List.pairwise_singleton ..
  | @token before gap lexeme rest t ts _ hcovers hrest ih =>
    refine List.pairwise_cons.2 ⟨fun u hmem => ?_, ih⟩
    refine Nat.lt_of_lt_of_le ?_ (hrest.ordered.2 u hmem).1
    obtain ⟨c, cs, hlexeme⟩ := List.exists_cons_of_ne_nil hcovers.written.ne_nil
    have hpos := c.utf8Size_pos
    rw [hcovers.span, hlexeme]
    simp only [Position.behind, String.ofList_append, String.ofList_cons,
      String.utf8ByteSize_append, String.utf8ByteSize_singleton]
    omega

/-- Errors at later and later tokens are in the order of the text. -/
theorem Error.pairwise_of_indices {tokens : List Token} {errors : List Error} {indices : List Nat}
    (h : List.Forall₂ (StandsAtIndex tokens) errors indices) (hindices : indices.Pairwise (· < ·))
    (htokens : tokens.Pairwise fun t u => t.span.start.offset < u.span.start.offset) :
    errors.Pairwise fun e e' => e.position.offset < e'.position.offset := by
  rw [List.pairwise_iff_getElem] at hindices htokens ⊢
  intro i j hi hj hij
  obtain ⟨token, htoken, _, -, he⟩ := h.get hi (h.length_eq ▸ hi)
  obtain ⟨token', htoken', _, -, he'⟩ := h.get hj (h.length_eq ▸ hj)
  obtain ⟨hlt, rfl⟩ := List.getElem?_eq_some_iff.1 htoken
  obtain ⟨hlt', rfl⟩ := List.getElem?_eq_some_iff.1 htoken'
  show (errors.get ⟨i, hi⟩).position.offset < (errors.get ⟨j, hj⟩).position.offset
  rw [he, he']
  exact htokens _ _ hlt hlt' (hindices i j _ _ hij)

namespace Parser

open Cursor

variable {s s' : Cursor}

theorem unbroken_of_stmt (hstop : s.stop.kind = .endOfFile) {e : Error}
    (h : stmt s = .error e s') : Unbroken e.message := by
  obtain ⟨tokens, t, rfl, -, hend⟩ := exists_push hstop
  have hagrees : Agrees t.current t tokens.length stmt stmt tokens := agrees_stmt hend
  obtain ⟨_, _, -, ⟨_, -, -, hq⟩ | ⟨_, -, hline, -, hq⟩⟩ := hagrees
  · cases h.symm.trans hq
  · cases h.symm.trans hq
    exact hline

end Parser

/-- The errors of a text that cannot be read come in the order of the text, and their messages stand
on one line. -/
theorem parseSource_reports {errors : List Error} (h : parseSource source file = .error errors) :
    (errors.Pairwise fun e e' => e.position.offset < e'.position.offset) ∧
      ∀ e ∈ errors, Unbroken e.message := by
  unfold parseSource at h
  split at h
  · next tokens htokenize =>
    obtain ⟨body, hlaid, hbody, htokens⟩ := ofTokens_of_tokenize htokenize
    unfold parse at h
    rw [htokens] at h
    dsimp only at h
    split at h
    · cases h
    · next hread =>
      obtain rfl := Except.error.inj h
      have hend : Parser.AtEnd (.endOfFile (.behind file source.toList))
        ⟨[], .endOfFile (.behind file source.toList)⟩ := ⟨rfl, rfl, rfl⟩
      obtain ⟨indices, hindices, -, hstands⟩ :=
        Parser.program_errors hend hbody [] [] (Nat.le_refl _)
      have hlines := Parser.forall_programWithin
        (s := ⟨body, .endOfFile (.behind file source.toList)⟩)
        (fun _ _ hstop _ => Parser.unbroken_of_stmt hstop) body.length rfl
      rw [hread] at hstands hlines
      exact ⟨Error.pairwise_of_indices hstands hindices hlaid.increasing, hlines⟩
  · next e htokenize =>
    obtain rfl := Except.error.inj h
    refine ⟨List.pairwise_singleton .., List.forall_mem_singleton.2 ?_⟩
    have hfrom : tokensFrom (.behind file []) source.toList = .error e := htokenize
    obtain ⟨_, _, _, -, -, rfl⟩ := tokensFrom_error_iff.1 hfrom
    exact (Cause.unbroken_message _).2 unbroken_empty

end Script
