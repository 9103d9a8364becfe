import Script.Proofs.Parse.Scans.Parts

/-!
# Reading statements

A statement that is read in full ends where its extent does, unless it ends with a brace before an
`else` that does not belong to it. Behind an inner statement the block around it goes on.
-/

namespace Script.Parser

open Cursor

variable {s t : Cursor} {behind : Option (List Token)} {n m b b' : Nat} {depth : Int}
  {tokens rest : List Token} {token : Token}

/-- Behind a whole statement. -/
def PastStmt (behind : Option (List Token)) (n : Nat) (depth depth' : Int) (left : List Token) :
    Prop :=
  Past (endBehindSemicolon depth) behind n depth depth' left ∨
    Past (endBehindBrace depth) behind n depth depth' left

/-- A statement that begins with a plain token of a certain kind. -/
theorem cons_of_kind {kind : TokenKind} (hkind : token.kind = kind)
    (hplain : kind.Plain ∧ kind ≠ .endOfFile)
    (hcons : token.kind ≠ .endOfFile → ∃ rest, tokens = token :: rest) :
    ∃ rest, tokens = token :: rest ∧ token.kind.Plain := by
  subst hkind
  obtain ⟨rest, htokens⟩ := hcons hplain.2
  exact ⟨rest, htokens, hplain.1⟩

/-! ### Statements that end with a semicolon -/

theorem scans_closing {f : Token → α} (hle : m ≤ n) (h : Within behind m depth tokens) :
    Scans s t behind (Past (endBehindSemicolon depth) behind n depth)
      (do return f (← expect .semicolon)) (do return f (← expect .semicolon)) depth tokens :=
  .bind (.semicolon h) fun _ _ _ h => .pure (h.mono hle)

theorem scans_declaration {start : Position} {global : Bool} (hkind : token.kind.Plain)
    (h : Within behind n depth (token :: rest)) :
    Scans s t behind (Past (endBehindSemicolon depth) behind n depth) (declaration start global)
      (declaration start global) depth (token :: rest) := by
  apply Scans.header (scans_advance hkind h)
  intro _ _ h
  apply Scans.header (scans_expectBecause _ (by decide) h)
  intro _ _ h
  apply Scans.header (scans_ascription? (by decide) h)
  intro _ _ h
  apply Scans.header (scans_expectBecause _ (by decide) h)
  intro _ _ h
  apply Scans.header (scans_expr h)
  intro _ _ h
  exact scans_closing (by omega) h

theorem scans_globalDeclaration (hkind : token.kind.Plain)
    (h : Within behind n depth (token :: rest)) :
    Scans s t behind (Past (endBehindSemicolon depth) behind n depth) globalDeclaration
      globalDeclaration depth (token :: rest) := by
  apply Scans.header (scans_advance hkind h)
  intro token left h
  apply Scans.kind h
  intro word hcons
  split
  · next hkind =>
    obtain ⟨rest, rfl, hplain⟩ := cons_of_kind hkind (by decide) hcons
    exact (scans_declaration hplain h).imp fun _ _ _ h => h.mono (by omega)
  · next hkind =>
    obtain ⟨rest, rfl, hplain⟩ := cons_of_kind hkind (by decide) hcons
    exact (scans_declaration hplain h).imp fun _ _ _ h => h.mono (by omega)
  · exact .unexpectedBecause _ h

theorem scans_importNames (hkind : token.kind.Plain) (h : Within behind n depth (token :: rest)) :
    Scans s t behind (Past (endBehindSemicolon depth) behind n depth) importNames importNames depth
      (token :: rest) := by
  have hname {m : Nat} : Stay s t behind m depth identifier identifier := fun k tokens _ h =>
    (scans_identifier h).imp fun _ _ _ h => ⟨h.1, h.2.mono (by omega)⟩
  have hpart {m : Nat} : Stay s t behind m depth (do return (← expect .identifier).text)
      (do return (← expect .identifier).text) := fun k tokens _ h =>
    .header (scans_expect (by decide) h) fun _ _ h => .pure ⟨rfl, h.mono (by omega)⟩
  apply Scans.header (scans_advance hkind h)
  intro _ _ h
  apply Scans.header (scans_names hname (by decide) h)
  intro _ _ h
  apply Scans.header (scans_expectBecause _ (by decide) h)
  intro _ _ h
  apply Scans.header (scans_names hpart (by decide) h)
  intro _ _ h
  exact scans_closing (by omega) h

theorem scans_returnValue (hkind : token.kind.Plain) (h : Within behind n depth (token :: rest)) :
    Scans s t behind (Past (endBehindSemicolon depth) behind n depth) returnValue returnValue depth
      (token :: rest) := by
  apply Scans.header (scans_advance hkind h)
  intro _ _ h
  apply Scans.header (scans_result? h)
  intro _ _ h
  exact scans_closing (by omega) h

theorem scans_expression (h : Within behind n depth tokens) :
    Scans s t behind (Past (endBehindSemicolon depth) behind n depth) expression expression depth
      tokens := by
  apply Scans.header (scans_expr h)
  intro _ _ h
  exact scans_closing (by omega) h

theorem scans_reassignment {operator : Token} (hname : token.kind.Plain)
    (hoperator : operator.kind.Plain) (h : Within behind n depth (token :: operator :: rest)) :
    Scans s t behind (Past (endBehindSemicolon depth) behind n depth) reassignment reassignment
      depth (token :: operator :: rest) := by
  have hfirst : Scans s t behind (fun depth' left => left = operator :: rest ∧
      Stays behind (n - 1) depth depth' left) advance advance depth (token :: operator :: rest) :=
    .advance ⟨rfl, stays_of_plain hname h⟩
  apply hfirst.bind
  intro _ depth' left h
  obtain ⟨rfl, rfl, h⟩ := h
  apply Scans.header (scans_advance hoperator h)
  intro _ _ h
  apply Scans.header (scans_expr h)
  intro _ _ h
  exact scans_closing (by omega) h

/-! ### Statements that end with a block -/

section

variable {stmt stmt' : Parser Stmt}
  (hstmt : ∀ {m depth tokens}, m ≤ n → 0 ≤ depth → Within behind m depth tokens →
    Scans s t behind (PastStmt behind m depth) stmt stmt' depth tokens)

include hstmt

theorem scans_blockStatements (hle : m ≤ n) (hdepth : 1 ≤ depth) (hbounds : Bounds behind m b b')
    (h : Within behind m depth tokens) :
    Scans s t behind (Past (endBehindBrace (depth - 1)) behind m (depth - 1))
      (blockStatements stmt b) (blockStatements stmt' b') depth tokens := by
  induction b generalizing b' m tokens with
  | zero =>
    obtain rfl := hbounds.zero h
    exact .unexpectedBecause _ h
  | succ b ih =>
    obtain ⟨c, rfl, hbelow⟩ := hbounds.succ h
    rw [blockStatements]
    apply Scans.current h
    intro token hcons
    split
    · next hkind =>
      obtain ⟨rest, rfl⟩ := hcons (by rw [hkind]; decide)
      exact .closeCurly hkind h fun h => .pure h
    · exact .unexpectedBecause _ h
    · apply Scans.bind (hstmt hle (by omega) h)
      intro first depth' left hpast
      have hwithin : Within behind (m - 1) depth left ∧ depth' = depth := by
        obtain hpast | hpast := hpast
        · exact ⟨hpast.within_of_semicolon hdepth, hpast.depth⟩
        · exact ⟨hpast.within_of_brace hdepth, hpast.depth⟩
      obtain ⟨h, rfl⟩ := hwithin
      exact .bind (ih (by omega) hbelow h) fun _ _ _ h => .pure (h.mono (by omega))

theorem scans_block (hle : m ≤ n) (hdepth : 0 ≤ depth) (hbounds : Bounds behind m b b')
    (h : Within behind m depth tokens) :
    Scans s t behind (Past (endBehindBrace depth) behind m depth) (block stmt b) (block stmt' b')
      depth tokens := by
  apply Scans.bind (.openCurly _ h)
  intro _ depth' left hopen
  obtain ⟨rfl, h⟩ := hopen
  have hinner := scans_blockStatements hstmt hle (show 1 ≤ depth + 1 by omega) hbounds h
  rw [Int.add_sub_cancel] at hinner
  exact .bind hinner fun _ _ _ h => .pure h

theorem scans_conditional (hle : m ≤ n + 1) (hdepth : 0 ≤ depth) (hbounds : Bounds behind m b b')
    (hkind : token.kind.Plain) (h : Within behind m depth (token :: rest)) :
    Scans s t behind (Past (endBehindBrace depth) behind m depth) (conditional stmt b)
      (conditional stmt' b') depth (token :: rest) := by
  induction b generalizing b' m token rest with
  | zero =>
    obtain rfl := hbounds.zero h
    exact .unexpected h
  | succ b ih =>
    obtain ⟨c, rfl, hbelow⟩ := hbounds.succ h
    apply Scans.header (scans_advance hkind h)
    intro _ _ h
    apply Scans.header (scans_expr h)
    intro _ _ h
    apply Scans.bind (scans_block hstmt (by omega) hdepth (hbelow.mono (by omega)) h)
    intro body depth' left hpast
    obtain rfl := hpast.depth
    refine .kind_else (fun token rest htokens helse => ?_) (.pure (hpast.mono (by omega)))
    obtain rfl := htokens
    apply Scans.skip (by rw [helse]; decide) (hpast.within_else helse)
    intro k hk h
    refine .kind h fun word hcons => .ite (fun hif => ?_) fun _ => ?_
    · obtain ⟨rest, rfl, hplain⟩ := cons_of_kind hif (by decide) hcons
      exact .bind (ih (by omega) (hbelow.mono (by omega)) hplain h)
        fun _ _ _ h => .pure (h.mono (by omega))
    · exact .bind (scans_block hstmt (by omega) hdepth (hbelow.mono (by omega)) h)
        fun _ _ _ h => .pure (h.mono (by omega))

theorem scans_loop (hle : m ≤ n + 1) (hdepth : 0 ≤ depth) (hbounds : Bounds behind (m - 1) b b')
    (hkind : token.kind.Plain) (h : Within behind m depth (token :: rest)) :
    Scans s t behind (Past (endBehindBrace depth) behind m depth) (loop stmt b) (loop stmt' b')
      depth (token :: rest) := by
  apply Scans.header (scans_advance hkind h)
  intro _ _ h
  apply Scans.header (scans_expr h)
  intro _ _ h
  exact .bind (scans_block hstmt (by omega) hdepth (hbounds.mono (by omega)) h)
    fun _ _ _ h => .pure (h.mono (by omega))

theorem scans_function (hle : m ≤ n + 1) (hdepth : 0 ≤ depth) (hbounds : Bounds behind (m - 1) b b')
    (hkind : token.kind.Plain) (h : Within behind m depth (token :: rest)) :
    Scans s t behind (Past (endBehindBrace depth) behind m depth) (function stmt b)
      (function stmt' b') depth (token :: rest) := by
  apply Scans.header (scans_advance hkind h)
  intro _ _ h
  apply Scans.header (scans_identifier h)
  intro _ _ h
  apply Scans.header (scans_expect (by decide) h)
  intro _ _ h
  refine .header (scans_items scans_parameter (by decide) (hbounds.mono (by omega)) h)
    fun _ _ h => ?_
  apply Scans.header (scans_ascription? (by decide) h)
  intro _ _ h
  exact .bind (scans_block hstmt (by omega) hdepth (hbounds.mono (by omega)) h)
    fun _ _ _ h => .pure (h.mono (by omega))

end

/-! ### All statements -/

theorem scans_startsReassignment {after : Int → List Token → Prop} {f g : Bool → Parser α}
    (h : Within behind n depth tokens)
    (htrue : ∀ token operator rest, tokens = token :: operator :: rest → token.kind = .identifier →
      operator.kind.Assigns → Scans s t behind after (f true) (g true) depth tokens)
    (hfalse : Scans s t behind after (f false) (g false) depth tokens) :
    Scans s t behind after (startsReassignment >>= f) (startsReassignment >>= g) depth tokens := by
  intro hidden
  have hf : (startsReassignment >>= f) (s.push tokens) =
      f (decide ((s.push tokens).current.kind = .identifier ∧ (s.push tokens).nextKind.Assigns))
        (s.push tokens) := rfl
  have hg : (startsReassignment >>= g) (t.push tokens) =
      g (decide ((t.push tokens).current.kind = .identifier ∧ (t.push tokens).nextKind.Assigns))
        (t.push tokens) := rfl
  rw [hf, hg, h.current_eq hidden]
  by_cases hname : (s.push tokens).current.kind = .identifier
  · obtain ⟨rest, hcons⟩ := h.cons hidden (by rw [hname]; decide)
    generalize (s.push tokens).current = token at hname hcons
    subst hcons
    obtain ⟨m, -, hrest⟩ := h.plain (by rw [hname]; decide)
    have hnext : (s.push (token :: rest)).nextKind = (s.push rest).current.kind :=
      (kind_current_advance (s := s.push (token :: rest)) hidden.stop).symm
    have hnext' : (t.push (token :: rest)).nextKind = (s.push rest).current.kind := by
      rw [← hrest.current_eq hidden]
      exact (kind_current_advance (s := t.push (token :: rest)) hidden.stop').symm
    rw [hnext, hnext']
    by_cases hassigns : (s.push rest).current.kind.Assigns
    · obtain ⟨rest', hcons⟩ := hrest.cons hidden hassigns.plain.2
      rw [decide_eq_true ⟨hname, hassigns⟩]
      exact htrue token _ rest' (by rw [← hcons]) hname hassigns hidden
    · rw [decide_eq_false fun h => hassigns h.2]
      exact hfalse hidden
  · rw [decide_eq_false fun h => hname h.1, decide_eq_false fun h => hname h.1]
    exact hfalse hidden

theorem scans_stmtWithin (hdepth : 0 ≤ depth) (hbounds : Bounds behind n b b')
    (h : Within behind n depth tokens) :
    Scans s t behind (PastStmt behind n depth) (stmtWithin b) (stmtWithin b') depth tokens := by
  induction b generalizing b' n depth tokens with
  | zero =>
    obtain rfl := hbounds.zero h
    exact .unexpected h
  | succ b ih =>
    obtain ⟨c, rfl, hbelow⟩ := hbounds.succ h
    have hstmt {m : Nat} {depth : Int} {tokens : List Token} (hle : m ≤ n - 1) (hdepth : 0 ≤ depth)
        (h : Within behind m depth tokens) :
        Scans s t behind (PastStmt behind m depth) (stmtWithin b) (stmtWithin c) depth tokens :=
      ih hdepth (hbelow.mono hle) h
    have semicolon {p : Parser Stmt}
        (hp : Scans s t behind (Past (endBehindSemicolon depth) behind n depth) p p depth tokens) :
        Scans s t behind (PastStmt behind n depth) p p depth tokens :=
      hp.imp fun _ _ _ => .inl
    have brace {p q : Parser Stmt}
        (hp : Scans s t behind (Past (endBehindBrace depth) behind n depth) p q depth tokens) :
        Scans s t behind (PastStmt behind n depth) p q depth tokens :=
      hp.imp fun _ _ _ => .inr
    rw [stmtWithin]
    apply Scans.kind h
    intro token hcons
    split
    · next hkind =>
      obtain ⟨rest, rfl, hplain⟩ := cons_of_kind hkind (by decide) hcons
      exact semicolon (.position h fun _ _ => scans_declaration hplain h)
    · next hkind =>
      obtain ⟨rest, rfl, hplain⟩ := cons_of_kind hkind (by decide) hcons
      exact semicolon (.position h fun _ _ => scans_declaration hplain h)
    · next hkind =>
      obtain ⟨rest, rfl, hplain⟩ := cons_of_kind hkind (by decide) hcons
      exact semicolon (scans_globalDeclaration hplain h)
    · next hkind =>
      obtain ⟨rest, rfl, hplain⟩ := cons_of_kind hkind (by decide) hcons
      exact semicolon (scans_importNames hplain h)
    · next hkind =>
      obtain ⟨rest, rfl, hplain⟩ := cons_of_kind hkind (by decide) hcons
      have hbranch := scans_conditional hstmt (by omega) hdepth hbounds hplain h
      exact brace (hbranch.bind fun _ _ _ h => .pure h)
    · next hkind =>
      obtain ⟨rest, rfl, hplain⟩ := cons_of_kind hkind (by decide) hcons
      exact brace (scans_loop hstmt (by omega) hdepth hbelow hplain h)
    · next hkind =>
      obtain ⟨rest, rfl, hplain⟩ := cons_of_kind hkind (by decide) hcons
      exact brace (scans_function hstmt (by omega) hdepth hbelow hplain h)
    · next hkind =>
      obtain ⟨rest, rfl, hplain⟩ := cons_of_kind hkind (by decide) hcons
      exact semicolon (scans_returnValue hplain h)
    · refine semicolon (scans_startsReassignment h ?_ (scans_expression h))
      rintro token operator rest rfl hname hassigns
      exact scans_reassignment (by rw [hname]; decide) hassigns.plain.1 h

theorem scans_stmt (hdepth : 0 ≤ depth) (h : Within behind n depth tokens) :
    Scans s t behind (PastStmt behind n depth) stmt stmt depth tokens := by
  apply Scans.bounded
  intro b b' hbounds
  apply (scans_stmtWithin hdepth hbounds h.self).imp
  intro _ _ _ hpast
  exact hpast.imp (fun hpast => hpast.mono h.length_le) fun hpast => hpast.mono h.length_le

end Script.Parser
