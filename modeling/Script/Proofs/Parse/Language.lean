import Script.Proofs.Parse.Completeness.Stmts

/-!
# The language that is read

A program is read without an error exactly when the grammar derives it, and what is read is then the
only tree that it derives.
-/

namespace Script

open Grammar

theorem Grammar.DerivesProgram.nil : DerivesProgram [] [] := by
  have hall : ∀ item ∈ ([] : List (List Token × Stmt)), DerivesStmt item.1 item.2 := nofun
  exact .mk hall

theorem Grammar.DerivesProgram.cons {tokens rest : List Token} {st : Stmt} {statements : List Stmt}
    (hst : DerivesStmt tokens st) (h : DerivesProgram rest statements) :
    DerivesProgram (tokens ++ rest) (st :: statements) := by
  obtain @⟨items, hall⟩ := h
  have hall' : ∀ item ∈ (tokens, st) :: items, DerivesStmt item.1 item.2 :=
    List.forall_mem_cons.2 ⟨hst, hall⟩
  simpa using DerivesProgram.mk hall'

namespace Parser

theorem derives_of_programWithin {bound : Nat} {s : Cursor} {statements : List Stmt}
    (hproper : s.Proper) (hbound : s.rest.length ≤ bound)
    (h : programWithin bound s = (statements, [])) : DerivesProgram s.rest statements := by
  induction bound generalizing s statements with
  | zero =>
    obtain rfl : [] = statements := congrArg Prod.fst h
    rw [List.length_eq_zero_iff.1 (Nat.le_zero.1 hbound)]
    exact .nil
  | succ bound ih =>
    by_cases hne : s.rest = []
    · rw [programWithin_nil hne] at h
      obtain rfl : [] = statements := congrArg Prod.fst h
      rw [hne]
      exact .nil
    · cases hstmt : stmt s with
      | error e s' =>
        rw [programWithin_error hne hstmt] at h
        cases congrArg Prod.snd h
      | ok first s' =>
        rw [programWithin_ok hne hstmt] at h
        obtain ⟨hstop, taken, hrest, hfirst⟩ := yields_stmt s hproper first s' hstmt
        have hpos : 0 < taken.length := by
          obtain ⟨token, tokens, rfl, -⟩ := hfirst.first
          exact Nat.succ_pos _
        have hbound' : s'.rest.length ≤ bound := by
          rw [hrest, List.length_append] at hbound
          omega
        generalize hrun : programWithin bound s' = result at h
        obtain ⟨others, errors⟩ := result
        obtain ⟨rfl, rfl⟩ := Prod.mk.inj h
        rw [hrest]
        exact (ih (hproper.of_append hstop hrest) hbound' hrun).cons hfirst

theorem programWithin_of_derives {stop : Token} {items : List (List Token × Stmt)} {bound : Nat}
    (hall : ∀ item ∈ items, DerivesStmt item.1 item.2)
    (hbound : (items.flatMap Prod.fst).length ≤ bound)
    (hproper : Cursor.Proper ⟨items.flatMap Prod.fst, stop⟩) :
    programWithin bound ⟨items.flatMap Prod.fst, stop⟩ = (items.map Prod.snd, []) := by
  induction items generalizing bound with
  | nil => exact programWithin_nil rfl
  | cons item items ih =>
    obtain ⟨tokens, st⟩ := item
    have hst : DerivesStmt tokens st := hall _ List.mem_cons_self
    have hall' (item : List Token × Stmt) (hmem : item ∈ items) : DerivesStmt item.1 item.2 :=
      hall item (List.mem_cons_of_mem _ hmem)
    have hnext : Cursor.NoElse (items.flatMap Prod.fst) := by
      have hempty : Cursor.NoElse [] := by decide
      simpa using noElse_flatMap hall' hempty
    rw [List.flatMap_cons] at hbound hproper ⊢
    have hfirst := stmt_eq hst hnext hproper
    obtain ⟨token, tokens, rfl, -⟩ := hst.first
    rw [List.length_append, List.length_cons] at hbound
    obtain ⟨bound, rfl⟩ := Nat.exists_eq_add_one_of_ne_zero (n := bound) (by omega)
    rw [programWithin_ok (by simp) hfirst, ih hall' (by omega) (proper_of_append hproper)]
    rfl

end Parser

theorem parse_of_derives {body : List Token} {statements : List Stmt}
    (h : DerivesProgram body statements) (hbody : ∀ token ∈ body, token.kind ≠ .endOfFile)
    (hnumerals : ∀ token ∈ body, token.kind = .number → token.IsNumeral) {last : Token}
    (hlast : last.kind = .endOfFile) (file : String) :
    ∃ span, parse (body ++ [last]) file = .ok (.mk statements span) := by
  obtain @⟨items, hall⟩ := h
  have hstop := Cursor.kind_stop_ofTokens (items.flatMap Prod.fst ++ [last]) file
  have hrest : (Cursor.ofTokens (items.flatMap Prod.fst ++ [last]) file).rest =
      items.flatMap Prod.fst :=
    Cursor.rest_ofTokens file hbody (by simpa using hlast)
  rw [parse_ok_iff]
  generalize Cursor.ofTokens (items.flatMap Prod.fst ++ [last]) file = s at hstop hrest
  obtain ⟨rest, stop⟩ := s
  obtain rfl : rest = items.flatMap Prod.fst := hrest
  exact Parser.programWithin_of_derives hall (Nat.le_refl _) ⟨hstop, hnumerals⟩

/-- Programs are read exactly as the grammar derives them, each with its only tree. -/
theorem parse_ok_iff_derives (file : String) (body tail : List Token)
    (hbody : ∀ token ∈ body, token.kind ≠ .endOfFile)
    (htail : ∀ token ∈ tail.head?, token.kind = .endOfFile)
    (hnumerals : ∀ token ∈ body, token.kind = .number → token.IsNumeral) :
    (∀ statements, (∃ span, parse (body ++ tail) file = .ok (.mk statements span)) ↔
      DerivesProgram body statements) ∧
    ∀ statements statements', DerivesProgram body statements → DerivesProgram body statements' →
      statements = statements' := by
  have hstop := Cursor.kind_stop_ofTokens (body ++ tail) file
  have hrest := Cursor.rest_ofTokens file hbody htail
  generalize hs : Cursor.ofTokens (body ++ tail) file = s at hstop hrest
  obtain ⟨rest, stop⟩ := s
  obtain rfl : rest = body := hrest
  have hproper : Cursor.Proper ⟨rest, stop⟩ := ⟨hstop, hnumerals⟩
  have hcomplete {statements : List Stmt} (h : DerivesProgram rest statements) :
      Parser.programWithin rest.length ⟨rest, stop⟩ = (statements, []) := by
    obtain @⟨items, hall⟩ := h
    exact Parser.programWithin_of_derives hall (Nat.le_refl _) hproper
  constructor
  · intro statements
    rw [parse_ok_iff, hs]
    exact ⟨Parser.derives_of_programWithin hproper (Nat.le_refl _), hcomplete⟩
  · intro statements statements' h h'
    exact congrArg Prod.fst ((hcomplete h).symm.trans (hcomplete h'))

/-- The tokens of `-1 - a;` in one place: a sign binds tighter than a difference. -/
theorem derives_difference_of_parse :
    DerivesProgram
      [⟨.dash, "-", default⟩, ⟨.number, "1", default⟩, ⟨.dash, "-", default⟩,
        ⟨.identifier, "a", default⟩, ⟨.semicolon, ";", default⟩]
      [.expression
        (.binary
          (.unary ⟨.negate, "-", default⟩ (.number ⟨1, by decide, by decide⟩ default) default)
          ⟨.operation .subtract, "-", default⟩ (.symbol "a" default) default)
        default] :=
  ((parse_ok_iff_derives "" _ [.endOfFile default] (by decide) (by decide) (by decide)).1 _).1
    ⟨_, rfl⟩

end Script
