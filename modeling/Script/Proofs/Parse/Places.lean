import Script.Proofs.Parse.Language
import Script.Proofs.Parse.Moved
import Script.Proofs.Token.Printed

/-!
# Where the parts of a program stand

The tokens of a text stand in a row, and a phrase of the grammar takes tokens together to nodes. So
each node of a program begins and ends in the text, and its parts stand one behind the other inside
of it. Parentheses around an expression belong to no node but those that hold the whole expression.

Places are kept in counters of 32 bits. A text that is too long for these has nodes that end in front
of their start.
-/

namespace Script

open Grammar Places

/-! ### Phrases with something between them -/

theorem Grammar.Commas.regroups {f : α → List Places} {items : List (List Token × α)}
    {tokens : List Token} (h : Commas (items.map Prod.fst) tokens)
    (hall : ∀ item ∈ items, Regroups (item.1.map Token.places) (f item.2)) :
    Regroups (tokens.map Token.places) ((items.map Prod.snd).flatMap f) := by
  generalize hphrases : items.map Prod.fst = phrases at h
  induction h generalizing items with
  | nil =>
    rw [List.map_eq_nil_iff.1 hphrases]
    exact .refl []
  | last =>
    obtain ⟨item, rfl, rfl⟩ := List.map_eq_singleton_iff.1 hphrases
    simpa using hall item List.mem_cons_self
  | @cons phrase rest phrases comma _ _ ih =>
    obtain ⟨item, items, rfl, rfl, rfl⟩ := List.map_eq_cons_iff.1 hphrases
    obtain ⟨hitem, hrest⟩ := List.forall_mem_cons.1 hall
    have hbehind : Regroups ((comma :: rest).map Token.places) ((items.map Prod.snd).flatMap f) :=
      .drop comma.places (ih hrest rfl)
    simpa using hitem.append hbehind

theorem Grammar.Commas.regroups_exprs {items : List (List Token × Expr)} {tokens : List Token}
    (h : Commas (items.map Prod.fst) tokens)
    (hall : ∀ item ∈ items, Regroups (item.1.map Token.places) [item.2.places]) :
    Regroups (tokens.map Token.places) (Expr.placesAll (items.map Prod.snd)) := by
  have hflat := h.regroups (f := fun e => [e.places]) hall
  rwa [← List.map_eq_flatMap, ← Expr.placesAll_eq_map] at hflat

theorem regroups_flatMap {items : List (List Token × Stmt)}
    (hall : ∀ item ∈ items, Regroups (item.1.map Token.places) [item.2.places]) :
    Regroups ((items.flatMap Prod.fst).map Token.places)
      (Stmt.placesAll (items.map Prod.snd)) := by
  induction items with
  | nil => exact .refl []
  | cons item items ih =>
    obtain ⟨hitem, hrest⟩ := List.forall_mem_cons.1 hall
    simpa [Stmt.placesAll] using hitem.append (ih hrest)

/-! ### Expressions -/

theorem Grammar.Derives.regroups {level : Level} {tokens : List Token} {e : Expr}
    (h : Derives level tokens e) : Regroups (tokens.map Token.places) [e.places] := by
  induction h with
  | number | string | symbol | true | false => exact .refl _
  | tighter _ ih => exact ih
  | @group opening closing tokens e _ _ _ ih =>
    have hparts : Regroups ((opening :: (tokens ++ [closing])).map Token.places)
        [opening.places, e.places, closing.places] := by
      simpa using Regroups.cons opening.places (ih.append (.refl [closing.places]))
    exact hparts.trans (.of_sublist (by simp))
  | @list opening closing items _ _ _ hcommas _ ih =>
    refine .group opening.places (Expr.placesAll (items.map Prod.snd)) closing.places (by simp) ?_
    simpa using Regroups.cons opening.places
      ((hcommas.regroups_exprs ih).append (.refl [closing.places]))
  | @call _ _ f opening closing items _ _ _ hcommas _ ih ihItems =>
    rw [← f.span_places]
    refine .group f.places (opening.places :: Expr.placesAll (items.map Prod.snd)) closing.places
      (by simp) ?_
    simpa using ih.append
      (.cons opening.places ((hcommas.regroups_exprs ihItems).append (.refl [closing.places])))
  | @index _ _ e i opening closing _ _ _ _ ih ihIndex =>
    rw [← e.span_places]
    refine .group e.places [opening.places, i.places] closing.places (by simp) ?_
    simpa using ih.append (.cons opening.places (ihIndex.append (.refl [closing.places])))
  | @unary token op _ e _ _ ih =>
    rw [← e.span_places]
    refine .group token.places [] e.places (.refl _) ?_
    simpa using Regroups.cons token.places ih
  | @binary _ token op _ _ a b _ _ _ _ ihLeft ihRight =>
    rw [← a.span_places, ← b.span_places]
    refine .group a.places [token.places] b.places (.refl _) ?_
    simpa using ihLeft.append (.cons token.places ihRight)

/-! ### Statements -/

theorem Grammar.DerivesType.position {tokens : List Token} {type : TypeExpr}
    (h : DerivesType tokens type) :
    ∃ token rest, tokens = token :: rest ∧ type.position = token.span.start := by
  induction h with
  | named => exact ⟨_, _, rfl, rfl⟩
  | listOf _ _ _ ih =>
    obtain ⟨token, rest, rfl, hposition⟩ := ih
    exact ⟨token, _, rfl, hposition⟩

theorem Grammar.DerivesType.regroups {tokens : List Token} {type : TypeExpr}
    (h : DerivesType tokens type) : Regroups (tokens.map Token.places) [type.places] := by
  obtain ⟨token, rest, rfl, hposition⟩ := h.position
  intro P lo hi hrow
  cases hrow with
  | cons hstart _ hle hparts hrest =>
    rw [TypeExpr.places, hposition]
    exact .cons hstart hstart hle (.nil (Nat.le_refl _)) (.nil (Nat.le_trans hparts.le hrest.le))

theorem Grammar.DerivesAscription.regroups {introducer : TokenKind} {tokens : List Token}
    {ascription : Option TypeExpr} (h : DerivesAscription introducer tokens ascription) :
    Regroups (tokens.map Token.places) (ascription.toList.map TypeExpr.places) := by
  cases h with
  | nothing => exact .refl []
  | type _ htype => exact .drop _ htype.regroups

theorem Grammar.DerivesParameter.regroups {tokens : List Token} {p : Parameter}
    (h : DerivesParameter tokens p) : Regroups (tokens.map Token.places) p.places := by
  cases h with
  | mk _ hascription =>
    exact .drop _ hascription.regroups

/-- Tokens whose first one and last one the node of a phrase reaches to. -/
theorem regroups_enclosed (opening closing : Token) {tokens : List Token} {inner : List Places}
    (h : Regroups (tokens.map Token.places) inner) :
    Regroups ((opening :: (tokens ++ [closing])).map Token.places)
      [.node ⟨opening.span.start, closing.span.stop⟩ inner] := by
  refine .group opening.places inner closing.places (by simp) ?_
  simpa using Regroups.cons opening.places (h.append (.refl [closing.places]))

theorem Grammar.DerivesDeclaration.regroups {start : Position} {global : Bool}
    {tokens : List Token} {st : Stmt} (h : DerivesDeclaration start global tokens st) :
    ∃ opening closing more inner, tokens = opening :: (more ++ [closing]) ∧
      Regroups (more.map Token.places) inner ∧
      st.places = .node ⟨start, closing.span.stop⟩ inner := by
  cases h with
  | @mk opening token equals closing typeTokens tokens ascription e _ _ htype _ he _ =>
    refine ⟨opening, closing, token :: (typeTokens ++ equals :: tokens), _, by simp, ?_, rfl⟩
    simpa using Regroups.drop token.places
      (htype.regroups.append (.drop equals.places he.regroups))

mutual

theorem Grammar.DerivesStmt.regroups {tokens : List Token} {st : Stmt}
    (h : DerivesStmt tokens st) : Regroups (tokens.map Token.places) [st.places] := by
  cases h with
  | @importNames opening word closing _ _ nameTokens pathTokens _ _ _ _ _ =>
    have hinner : Regroups ((nameTokens ++ word :: pathTokens).map Token.places) [] :=
      .of_sublist (List.nil_sublist _)
    simpa [Stmt.places] using regroups_enclosed opening closing hinner
  | declaration h =>
    obtain ⟨opening, closing, more, inner, htokens, hinner, hst⟩ := h.regroups
    obtain ⟨rfl, rfl⟩ := List.cons.inj htokens
    rw [hst]
    exact regroups_enclosed _ closing hinner
  | @globalDeclaration word _ _ _ h =>
    obtain ⟨opening, closing, more, inner, rfl, hinner, hst⟩ := h.regroups
    rw [hst]
    have hinner' : Regroups ((opening :: more).map Token.places) inner :=
      .drop opening.places hinner
    exact regroups_enclosed word closing hinner'
  | @reassignment token equals closing tokens e _ _ he _ =>
    have hinner : Regroups ((equals :: tokens).map Token.places) [e.places] :=
      .drop equals.places he.regroups
    exact regroups_enclosed token closing hinner
  | @compound token operator closing _ tokens e _ _ he _ =>
    have hvalue : Regroups ((token :: operator :: tokens).map Token.places)
        [.node ⟨token.span.start, e.span.stop⟩ [token.places, operator.places, e.places]] := by
      rw [← e.span_places]
      exact .group token.places [operator.places] e.places (.refl _)
        (.cons token.places (.cons operator.places he.regroups))
    refine .group (.node ⟨token.span.start, e.span.stop⟩ _) [] closing.places
      (List.sublist_append_left [_] [closing.places]) ?_
    simp only [List.map_cons, List.map_append, List.map_nil]
    exact hvalue.append (.refl [closing.places])
  | @function opening token left right items _ _ _ returns body _ _ _ hall hcommas _ hreturns
      hbody =>
    rw [← body.span_places]
    refine .group opening.places ((items.map Prod.snd).flatMap Parameter.places ++
      returns.toList.map TypeExpr.places) body.places (by simp) ?_
    have hparameters := hcommas.regroups fun item hmem => (hall item hmem).regroups
    simpa using Regroups.cons opening.places (.drop token.places (.drop left.places
      (hparameters.append (.drop right.places (hreturns.regroups.append hbody.regroups)))))
  | @returnNothing opening closing _ _ =>
    have hinner : Regroups (([] : List Token).map Token.places) [] := .refl []
    exact regroups_enclosed opening closing hinner
  | @returnValue opening closing _ _ _ he _ => exact regroups_enclosed opening closing he.regroups
  | conditional h => exact h.regroups
  | @loop opening tokens bodyTokens e body _ he hbody =>
    rw [← body.span_places]
    refine .group opening.places [e.places] body.places (by simp) ?_
    simpa using Regroups.cons opening.places (he.regroups.append hbody.regroups)
  | @expression tokens e closing he _ =>
    have hvalue : Regroups ((tokens ++ [closing]).map Token.places) [e.places] := by
      have hclosing : Regroups [closing.places] [] := .of_sublist (List.nil_sublist _)
      simpa using he.regroups.append hclosing
    simpa [Stmt.places] using hvalue.alone
termination_by sizeOf st

theorem Grammar.DerivesConditional.regroups {tokens : List Token} {branch : Conditional}
    (h : DerivesConditional tokens branch) :
    Regroups (tokens.map Token.places) [branch.places] := by
  cases h with
  | @plain opening _ _ e body _ he hbody =>
    rw [← body.span_places]
    refine .group opening.places [e.places] body.places (List.sublist_cons_self ..) ?_
    simpa using Regroups.cons opening.places (he.regroups.append hbody.regroups)
  | @withBlock opening word _ _ _ e body otherwise _ he hbody _ helse =>
    rw [← otherwise.span_places]
    refine .group opening.places [e.places, body.places] otherwise.places
      (List.sublist_cons_self ..) ?_
    simpa using Regroups.cons opening.places
      (he.regroups.append (hbody.regroups.append (.drop word.places helse.regroups)))
  | @withConditional opening word _ _ _ e body branch _ he hbody _ helse =>
    rw [← branch.span_places]
    refine .group opening.places [e.places, body.places] branch.places
      (List.sublist_cons_self ..) ?_
    simpa using Regroups.cons opening.places
      (he.regroups.append (hbody.regroups.append (.drop word.places helse.regroups)))
termination_by sizeOf branch

theorem Grammar.DerivesBlock.regroups {tokens : List Token} {body : Block}
    (h : DerivesBlock tokens body) : Regroups (tokens.map Token.places) [body.places] := by
  cases h with
  | @mk opening closing _ _ hall _ =>
    exact regroups_enclosed opening closing
      (regroups_flatMap fun item hmem => (hall item hmem).regroups)
termination_by sizeOf body
decreasing_by
  have hlt := List.sizeOf_lt_of_mem (List.mem_map_of_mem (f := Prod.snd) hmem)
  simp
  omega

end

/-! ### Programs -/

/-- The tokens of a text stand in a row. -/
theorem Laid.row {source file : String} {before cs : List Char} {tokens : List Token}
    (h : Laid file before cs tokens) (hsource : before ++ cs = source.toList) :
    Row (Position.In source file) (Position.behind file before).offset (tokens.map Token.places)
      (Position.behind file (before ++ cs)).offset := by
  induction h with
  | @done before gap _ =>
    have hend : (Position.behind file (before ++ gap)).In source file :=
      Position.in_behind [] (by simpa using hsource)
    exact .cons hend hend (offset_behind_le ..) (.nil (Nat.le_refl _)) (.nil (Nat.le_refl _))
  | @token before gap lexeme rest t ts _ hcovers _ ih =>
    have hbehind : before ++ gap ++ lexeme ++ rest = source.toList := by simpa using hsource
    have hstart : (Position.behind file (before ++ gap)).In source file :=
      Position.in_behind (lexeme ++ rest) (by simpa using hbehind)
    have hstop : (Position.behind file (before ++ gap ++ lexeme)).In source file :=
      Position.in_behind rest hbehind
    have hrow := ih hbehind
    rw [List.map_cons, Token.places, hcovers.span]
    refine .cons hstart hstop (offset_behind_le ..) (.nil (offset_behind_le ..)) ?_
    simpa using hrow

theorem Cursor.ofTokens_append {body : List Token} (file : String) {last : Token}
    (hbody : ∀ token ∈ body, token.kind ≠ .endOfFile) (hlast : last.kind = .endOfFile) :
    ofTokens (body ++ [last]) file = ⟨body, last⟩ := by
  have hall : ∀ token ∈ body, decide (token.kind ≠ .endOfFile) = true :=
    fun token hmem => decide_eq_true (hbody token hmem)
  have hrest : (body ++ [last]).takeWhile (fun token => decide (token.kind ≠ .endOfFile)) = body :=
    rest_ofTokens file hbody (show ∀ token ∈ [last].head?, token.kind = .endOfFile by
      simpa using hlast)
  have hstop : (body ++ [last]).dropWhile (fun token => decide (token.kind ≠ .endOfFile)) =
      [last] := by
    rw [List.dropWhile_append_of_pos hall]
    simp [hlast]
  unfold ofTokens
  rw [hrest, hstop]

theorem Laid.proper {file : String} {before cs : List Char} {body : List Token} {last : Token}
    (h : Laid file before cs (body ++ [last])) (hbody : ∀ token ∈ body, token.kind ≠ .endOfFile)
    (hlast : last.kind = .endOfFile) : Cursor.Proper ⟨body, last⟩ := by
  refine ⟨hlast, fun token hmem hkind => ?_⟩
  obtain ⟨_, _, _, -, hcovers⟩ := h.covers (List.mem_append_left _ hmem) (hbody token hmem)
  exact hcovers.written.digits hkind

/-- What the parser takes of the tokens of a text: all of them, up to the end of the file. -/
theorem ofTokens_of_tokenize {source file : String} {tokens : List Token}
    (h : tokenize source file = .ok tokens) :
    ∃ body, Laid file [] source.toList (body ++ [.endOfFile (.behind file source.toList)]) ∧
      (∀ token ∈ body, token.kind ≠ .endOfFile) ∧
      Cursor.ofTokens tokens file = ⟨body, .endOfFile (.behind file source.toList)⟩ := by
  have hlaid : Laid file [] source.toList tokens := laid_of_tokensFrom h
  obtain ⟨body, rfl, hbody⟩ := hlaid.endOfFile
  exact ⟨body, hlaid, hbody, Cursor.ofTokens_append file hbody rfl⟩

/-- A program that is read from a text has the statements that the grammar derives from all its
tokens but the end of the file, and reaches from the start of the text to that end. -/
theorem derives_of_parseSource {source file : String} {program : Block}
    (h : parseSource source file = .ok program) :
    ∃ body statements, program = .mk statements ⟨.start file, .behind file source.toList⟩ ∧
      Laid file [] source.toList (body ++ [.endOfFile (.behind file source.toList)]) ∧
      DerivesProgram body statements := by
  unfold parseSource at h
  split at h
  · next tokens htokenize =>
    obtain ⟨body, hlaid, hbody, htokens⟩ := ofTokens_of_tokenize htokenize
    have hproper := hlaid.proper hbody rfl
    unfold parse at h
    rw [htokens] at h
    dsimp only at h
    split at h
    · next statements hread =>
      obtain rfl := Except.ok.inj h
      exact ⟨body, statements, rfl, hlaid,
        Parser.derives_of_programWithin hproper (Nat.le_refl _) hread⟩
    · cases h
  · cases h

theorem sound_of_parseSource {source file : String} {program : Block}
    (h : parseSource source file = .ok program) :
    ∀ node, program.places.HasNode node → node.Sound source file := by
  obtain ⟨body, _, rfl, hlaid, @⟨items, hall⟩⟩ := derives_of_parseSource h
  intro node hnode
  have hstart : (Position.start file) = .behind file [] := by
    simp [Position.start, Position.behind]
  have hrow : Row (Position.In source file) _ _ _ := hlaid.row (List.nil_append _)
  rw [List.map_append, List.nil_append] at hrow
  obtain ⟨mid, hbody, hend⟩ := Row.append_iff.1 hrow
  have hstatements := regroups_flatMap (fun item hmem => (hall item hmem).regroups) _ _ _ hbody
  have hprogram : Row (Position.In source file) 0
      [(Block.mk (items.map Prod.snd) ⟨.start file, .behind file source.toList⟩).places]
      (Position.behind file source.toList).offset := by
    refine .cons ?_ (Position.in_behind [] (by simp)) (Nat.zero_le _) ?_
      (.nil (Nat.le_refl _))
    · rw [hstart]
      exact Position.in_behind source.toList rfl
    · rw [hstart]
      exact hstatements.mono (Nat.le_refl _) hend.le
  exact hprogram.sound hnode

/-- Every node of a program that is read begins and ends in the text, in this order, on the lines
that the newlines before make, and its parts stand one behind the other inside of it. So counters of
32 bits have it, if they reach to the end of the text. -/
theorem parseSource_sound {source file : String} {program : Block} (hsource : FitsCounters source)
    (h : parseSource source file = .ok program) :
    ∀ node, (program.move .counted).places.HasNode node → node.Sound source file := by
  rw [move_of_parseSource hsource.move_counted h]
  exact sound_of_parseSource h

theorem parseSource_sound_of_compound : ∃ program,
    parseSource "fn f(a: Integer[]) \x7b\n    a += -(1 + a[0](2));\n\x7d" "main.vi" = .ok program ∧
      ∀ node, (program.move .counted).places.HasNode node →
        node.Sound "fn f(a: Integer[]) \x7b\n    a += -(1 + a[0](2));\n\x7d" "main.vi" := by
  have hok : (parseSource "fn f(a: Integer[]) \x7b\n    a += -(1 + a[0](2));\n\x7d" "main.vi").isOk := by
    decide +kernel
  cases hread : parseSource "fn f(a: Integer[]) \x7b\n    a += -(1 + a[0](2));\n\x7d" "main.vi" with
  | error errors =>
    rw [hread] at hok
    cases hok
  | ok program =>
    exact ⟨program, rfl, parseSource_sound ⟨by decide, by decide⟩ hread⟩

/-- Behind 4294967294 blanks, the call in `a ();` ends where the counters have started over, and so in
front of its start. -/
theorem parseSource_unsound_of_blanks :
    let source := String.ofList (List.replicate 4294967294 ' ' ++ "a ();".toList)
    ∃ program node, parseSource source "main.vi" = .ok program ∧
      (program.move .counted).places.HasNode node ∧
      node.span.stop.offset < node.span.start.offset := by
  intro source
  let span (start stop : Nat) : Span := ⟨⟨start, 1, "main.vi"⟩, ⟨stop, 1, "main.vi"⟩⟩
  let call : Expr := .call (.symbol "a" (span 4294967294 4294967295)) []
    (span 4294967294 4294967298)
  let program : Block :=
    .mk [.expression call (span 4294967294 4294967298)] (span 0 4294967299)
  have htokens : tokenize source "main.vi" = .ok
      [⟨.identifier, "a", span 4294967294 4294967295⟩,
        ⟨.openParen, "(", span 4294967296 4294967297⟩,
        ⟨.closeParen, ")", span 4294967297 4294967298⟩,
        ⟨.semicolon, ";", span 4294967298 4294967299⟩,
        .endOfFile ⟨4294967299, 1, "main.vi"⟩] := by
    have hrest : ∀ c ∈ "a ();".toList.head?, ¬isBlank c := by
      rintro _ ⟨⟩
      decide
    rw [tokenize_replicate _ _ hrest]
    decide +kernel
  have hparse : parseSource source "main.vi" = .ok program := by
    rw [parseSource, htokens]
    rfl
  exact ⟨program, (call.move .counted).places, hparse,
    .part (List.mem_singleton_self _) (.part (List.mem_singleton_self _) (.self _)), by decide⟩

end Script
