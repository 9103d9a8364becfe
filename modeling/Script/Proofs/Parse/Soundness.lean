import Script.Proofs.Parse.Phrases
import Script.Proofs.Parse.Yields

/-!
# What is read can be derived

Whatever a parser accepts is a phrase of the grammar, made of the tokens it took, and the tree it
gives is the one of that phrase. For expressions that rests on what may stand behind an operand:
nothing that goes on there binds tighter than the operand's own level.
-/

namespace Script

open Grammar

namespace Grammar

/-- Levels are counted as powers are. -/
def Level.rank : Level → Nat
  | .logical => 1
  | .relational => 2
  | .additive => 3
  | .multiplicative => 4
  | .signed => 5
  | .applied => 6
  | .primary => 7

theorem Level.rank_next {level : Level} (h : level.rank < 7) :
    level.next.rank = level.rank + 1 := by
  cases level <;> first | rfl | exact absurd h (by decide)

theorem Level.rank_le (level : Level) : level.rank ≤ 7 := by
  cases level <;> decide

theorem Level.eq_of_rank {level level' : Level} (h : level.rank = level'.rank) :
    level = level' := by
  cases level <;> cases level' <;> first | rfl | cases h

/-- A phrase of a level is one of every looser level. -/
theorem Derives.loosen {level level' : Level} {tokens : List Token} {e : Expr}
    (h : Derives level tokens e) (hle : level'.rank ≤ level.rank) : Derives level' tokens e := by
  obtain ⟨steps, hsteps⟩ := Nat.le.dest hle
  induction steps generalizing level' with
  | zero => exact Level.eq_of_rank hsteps ▸ h
  | succ steps ih =>
    have hrank : level'.rank < 7 := by
      have hmax := level.rank_le
      omega
    have hnext := Level.rank_next hrank
    exact .tighter (ih (by omega) (by omega))

end Grammar

/-- The loosest level that is read up to an operator of a power. -/
def Power.above : Power → Level
  | .lowest => .logical
  | .logical => .relational
  | .relational => .additive
  | .additive => .multiplicative
  | .multiplicative | .unary => .signed
  | .call | .primary => .primary

namespace Parser

variable {s : Cursor}

/-- What goes on behind an operand of a level does not bind tighter than it. -/
def Fits (level : Level) (s : Cursor) : Prop :=
  (Continuation.ofKind? s.current.kind).isSome → (Power.ofKind s.current.kind).rank ≤ level.rank

theorem fits_applied (s : Cursor) {level : Level} (h : 6 ≤ level.rank) : Fits level s := by
  intro hsome
  refine Nat.le_trans ?_ h
  cases hkind : s.current.kind <;> rw [hkind] at hsome <;> first | decide | cases hsome

theorem binary_level {kind : TokenKind} {op : BinaryOp}
    (h : Continuation.ofKind? kind = some (.binary op)) :
    BinaryOp.ofKind? kind = some op ∧ ∃ level : Level, kind ∈ level.operators ∧
      level.rank = (Power.ofKind kind).rank ∧ level.next = (Power.ofKind kind).above ∧
      (Power.ofKind kind).rank ≤ 4 := by
  have hop : BinaryOp.ofKind? kind = some op := by
    unfold Continuation.ofKind? at h
    split at h
    · cases h
    · cases h
    · simpa using h
  refine ⟨hop, ?_⟩
  cases kind <;> first
    | exact ⟨.logical, by decide, rfl, rfl, by decide⟩
    | exact ⟨.relational, by decide, rfl, rfl, by decide⟩
    | exact ⟨.additive, by decide, rfl, rfl, by decide⟩
    | exact ⟨.multiplicative, by decide, rfl, rfl, by decide⟩
    | exact nomatch hop

theorem rank_above {power : Power} (h : power.rank ≤ 5) :
    power.above.rank ≤ power.rank + 1 ∧ power.above.rank ≤ 5 := by
  cases power <;> first | decide | exact absurd h (by decide)

section

variable {inner : ExprReader} {n : Nat}
  (hinner : ∀ (power : Power) (s : Cursor), power.rank ≤ 5 → s.rest.length ≤ n →
    Yields (fun taken e s' => Derives power.above taken e ∧
      (Power.ofKind s'.current.kind).rank ≤ power.rank) (inner power) s)

include hinner

theorem yields_expressions (close : TokenKind) (hclose : close ≠ .endOfFile) (bound : Nat)
    (hn : s.rest.length ≤ n) :
    Yields (fun taken result _ => ListOf (Derives .logical) close taken result)
      (expressions inner close bound) s := by
  refine yields_items (fun s hs => ?_) hclose bound hn
  exact (hinner .lowest s (by decide) hs).imp fun _ _ _ _ he => he.1

theorem yields_operand (bound : Nat) (hn : s.rest.length ≤ n + 1) :
    Yields (fun taken e s' => ∃ level : Level, 5 ≤ level.rank ∧ Derives level taken e ∧
      Fits level s') (operand inner bound) s := by
  have primary {tokens : List Token} {e : Expr} {s' : Cursor} (h : Derives .primary tokens e) :
      ∃ level : Level, 5 ≤ level.rank ∧ Derives level tokens e ∧ Fits level s' :=
    ⟨.primary, by decide, h, fits_applied s' (by decide)⟩
  have constant {kind : TokenKind} {e : Expr} (hkind : s.current.kind = kind)
      (hne : kind ≠ .endOfFile) (h : Derives .primary [s.current] e) :
      Yields (fun taken e s' => ∃ level : Level, 5 ≤ level.rank ∧ Derives level taken e ∧
        Fits level s') (do skip; return e) s := by
    refine .bind (.skip hkind hne) fun _ _ taken _ htaken => .pure (primary ?_)
    rw [htaken]
    exact h
  have inside {s' : Cursor} {opening : Token} {tokens : List Token}
      (hrest : s.rest = tokens ++ s'.rest) (htokens : tokens = [opening]) : s'.rest.length ≤ n := by
    rw [hrest, htokens] at hn
    simpa using hn
  rw [operand]
  apply Yields.look rfl
  split
  · next hkind =>
    split
    · next value hvalue =>
      intro hproper
      have hmem : s.current ∈ s.rest := by
        rw [hproper.rest_eq (by rw [hkind]; decide)]
        exact List.mem_cons_self
      have hnumeral := hproper.numerals _ hmem hkind
      rw [Integer.ofText?_of_isNumeral hnumeral] at hvalue
      exact constant hkind (by decide) (.number hkind hvalue) hproper
    · exact .fail rfl
  · next hkind =>
    exact constant hkind (by decide) (.symbol hkind)
  · next hkind =>
    exact constant hkind (by decide) (.string hkind)
  · next hkind =>
    exact constant hkind (by decide) (.true hkind)
  · next hkind =>
    exact constant hkind (by decide) (.false hkind)
  · next hkind =>
    apply Yields.bind (.skip hkind (by decide))
    intro _ s' _ hrest h
    apply Yields.bind (hinner .lowest s' (by decide) (inside hrest h))
    intro e _ tokens _ he
    refine .bind (.expect (by decide)) fun closing _ _ _ hclosing => .pure (primary ?_)
    simpa [h, hclosing.1] using Derives.group hkind he.1 hclosing.2
  · next hkind =>
    apply Yields.bind (.skip hkind (by decide))
    intro _ s' _ hrest h
    have hlist := yields_expressions hinner .closeBracket (by decide) bound (inside hrest h)
    refine .bind hlist fun result _ tokens _ hr => .pure (primary ?_)
    obtain ⟨items, tokens, rfl, hclosing, hitems, hall, hcommas⟩ := hr
    simpa [h, hitems] using Derives.list hkind hall hcommas hclosing
  · split
    · next op hop =>
      have hne : s.current.kind ≠ .endOfFile := fun heq => by rw [heq] at hop; cases hop
      apply Yields.bind (.skip rfl hne)
      intro _ s' _ hrest h
      refine .bind (hinner .unary s' (by decide) (inside hrest h)) fun e s'' tokens _ he =>
        .pure ⟨.signed, by decide, ?_, fun _ => he.2⟩
      simpa [h] using Derives.unary hop he.1
    · exact .fail rfl

theorem yields_extend {power : Power} (hpower : power.rank ≤ 5) (bound : Nat) {level : Level}
    {before : List Token} {left : Expr} (hleft : Derives level before left)
    (hlevel : power.above.rank ≤ level.rank) (hfits : Fits level s) (hbound : s.rest.length ≤ bound)
    (hn : s.rest.length ≤ n + 1) :
    Yields (fun taken e s' => Derives power.above (before ++ taken) e ∧
      (Power.ofKind s'.current.kind).rank ≤ power.rank) (extend inner power bound left) s := by
  induction bound generalizing level before left s with
  | zero =>
    intro hproper
    have hrest : s.rest = [] := List.length_eq_zero_iff.1 (Nat.le_zero.1 hbound)
    have hkind : s.current.kind = .endOfFile := by
      simpa [Cursor.current, hrest] using hproper.stop
    refine Yields.pure ⟨by simpa using hleft.loosen hlevel, ?_⟩ hproper
    rw [hkind]
    exact Nat.zero_le _
  | succ bound ih =>
    rw [extend]
    apply Yields.look rfl
    split
    · next hle => exact .pure ⟨by simpa using hleft.loosen hlevel, hle⟩
    · next hgt =>
      replace hgt : power.rank < (Power.ofKind s.current.kind).rank := Nat.lt_of_not_le hgt
      have hne : s.current.kind ≠ .endOfFile := fun heq => by
        rw [heq] at hgt
        exact absurd hgt (Nat.not_lt_zero _)
      have inside {s' : Cursor} {opening : Token} {tokens : List Token}
          (hrest : s.rest = tokens ++ s'.rest) (htokens : tokens = [opening]) :
          s'.rest.length ≤ n ∧ s'.rest.length ≤ bound := by
        rw [hrest, htokens] at hn hbound
        exact ⟨by simpa using hn, by simpa using hbound⟩
      have within {s' s'' : Cursor} {tokens : List Token} (hrest : s'.rest = tokens ++ s''.rest)
          (h : s'.rest.length ≤ n ∧ s'.rest.length ≤ bound) :
          s''.rest.length ≤ bound ∧ s''.rest.length ≤ n + 1 := by
        have hle := length_le_of_append hrest
        exact ⟨Nat.le_trans hle h.2, Nat.le_succ_of_le (Nat.le_trans hle h.1)⟩
      split
      · exact .fail rfl
      · next op hc =>
        obtain ⟨hop, level', hmem, hrank, hnext, hle⟩ := binary_level hc
        have hfit := hfits (by rw [hc]; rfl)
        apply Yields.bind (.skip rfl hne)
        intro _ s' _ hrest h
        have hs' := inside hrest h
        apply Yields.bind (hinner _ s' (by omega) hs'.1)
        intro right s'' tokens hrest' hright
        have hs'' := within hrest' hs'
        have hwhole := Derives.binary hmem hop (hleft.loosen (by omega)) (hnext ▸ hright.1)
        have habove := rank_above hpower
        refine (ih hwhole (by omega) (fun _ => by omega) hs''.1 hs''.2).imp
          fun taken e s''' _ he => ⟨?_, he.2⟩
        simpa [h] using he.1
      · next hc =>
        have hkind := kind_of_call hc
        have hfit := hfits (by rw [hc]; rfl)
        rw [hkind] at hfit
        have habove := rank_above hpower
        apply Yields.bind (.skip rfl hne)
        intro _ s' _ hrest h
        have hs' := inside hrest h
        have hlist := yields_expressions hinner .closeParen (by decide) bound hs'.1
        apply Yields.bind hlist
        intro result s'' _ hrest' hr
        have hs'' := within hrest' hs'
        obtain ⟨items, tokens, rfl, hclosing, hitems, hall, hcommas⟩ := hr
        have hwhole := Derives.call (hleft.loosen hfit) hkind hall hcommas hclosing
        rw [← hitems] at hwhole
        refine (ih hwhole (Nat.le_trans habove.2 (by decide)) (fits_applied _ (by decide)) hs''.1
          hs''.2).imp fun taken e s''' _ he => ⟨?_, he.2⟩
        simpa [h] using he.1
      · next hc =>
        have hkind := kind_of_index hc
        have hfit := hfits (by rw [hc]; rfl)
        rw [hkind] at hfit
        have habove := rank_above hpower
        apply Yields.bind (.skip rfl hne)
        intro _ s' _ hrest h
        have hs' := inside hrest h
        apply Yields.bind (hinner .lowest s' (by decide) hs'.1)
        intro i s'' tokens hrest' hi
        apply Yields.bind (.expect (by decide))
        intro closing s''' last hrest'' hclosing
        have hrest : s'.rest = tokens ++ last ++ s'''.rest := by
          rw [hrest', hrest'', List.append_assoc]
        have hs'' := within hrest hs'
        have hwhole := Derives.index (hleft.loosen hfit) hkind hi.1 hclosing.2
        refine (ih hwhole (Nat.le_trans habove.2 (by decide)) (fits_applied _ (by decide)) hs''.1
          hs''.2).imp fun taken e s''' _ he => ⟨?_, he.2⟩
        simpa [h, hclosing.1] using he.1

end

theorem yields_exprWithin (bound : Nat) (power : Power) (hpower : power.rank ≤ 5)
    (hbound : s.rest.length ≤ bound) :
    Yields (fun taken e s' => Derives power.above taken e ∧
      (Power.ofKind s'.current.kind).rank ≤ power.rank) (exprWithin bound power) s := by
  induction bound generalizing power s with
  | zero => exact .fail rfl
  | succ bound ih =>
    rw [exprWithin]
    have hinner (power : Power) (s : Cursor) (hpower : power.rank ≤ 5)
        (hs : s.rest.length ≤ bound) := ih power hpower hs
    apply Yields.bind (yields_operand hinner bound hbound)
    intro left s' taken hrest hleft
    obtain ⟨level, hlevel, hderives, hfits⟩ := hleft
    have hlength : s'.rest.length ≤ bound := by
      have hpos := List.length_pos_iff.2 hderives.ne_nil
      rw [hrest, List.length_append] at hbound
      omega
    exact yields_extend hinner hpower bound hderives (Nat.le_trans (rank_above hpower).2 hlevel)
      hfits hlength (Nat.le_succ_of_le hlength)

theorem yields_expr (s : Cursor) : Yields (fun taken e _ => Derives .logical taken e) expr s :=
  .bounded ((yields_exprWithin s.rest.length .lowest (by decide) (Nat.le_refl _)).imp
    fun _ _ _ _ he => he.1)

/-! ### Parts of statements -/

theorem yields_identifier (s : Cursor) :
    Yields (fun taken a _ => ∃ token, taken = [token] ∧ token.kind = .identifier ∧ a = name token)
      identifier s :=
  .bind (.expect (by decide)) fun token _ _ _ h => .pure ⟨token, by simpa using h.1, h.2, rfl⟩

theorem yields_typeSuffixes (bound : Nat) {before : List Token} {element : TypeExpr}
    (h : DerivesType before element) (s : Cursor) :
    Yields (fun taken t _ => DerivesType (before ++ taken) t) (typeSuffixes bound element) s := by
  induction bound generalizing before element s with
  | zero => exact .pure (by simpa using h)
  | succ bound ih =>
    rw [typeSuffixes]
    apply Yields.look rfl
    split
    · next hkind =>
      apply Yields.bind (.skip hkind (by decide))
      intro _ s' _ _ hopening
      apply Yields.bind (.expect (by decide))
      intro closing s'' _ _ hclosing
      apply (ih (.listOf h hkind hclosing.2) s'').imp
      intro taken t _ _ ht
      simpa [hopening, hclosing.1] using ht
    · exact .fail rfl
    · exact .pure (by simpa using h)

theorem yields_typeExpr (s : Cursor) :
    Yields (fun taken t _ => DerivesType taken t) typeExpr s := by
  apply Yields.bind (.expect (by decide))
  intro token s' taken _ h
  apply Yields.bounded
  rw [h.1]
  exact yields_typeSuffixes _ (.named h.2) s'

theorem yields_ascription? {introducer : TokenKind} (h : introducer ≠ .endOfFile) (s : Cursor) :
    Yields (fun taken t _ => DerivesAscription introducer taken t) (ascription? introducer) s := by
  rw [ascription?]
  apply Yields.look rfl
  split
  · next hkind =>
    apply Yields.bind (.skip hkind h)
    intro _ s' taken _ htaken
    apply Yields.bind (yields_typeExpr s')
    intro t _ _ _ ht
    apply Yields.pure
    simpa [htaken] using DerivesAscription.type hkind ht
  · exact .pure .nothing

theorem yields_parameter (s : Cursor) :
    Yields (fun taken a _ => DerivesParameter taken a) parameter s := by
  apply Yields.bind (yields_identifier s)
  intro a s' taken _ ha
  obtain ⟨token, rfl, hkind, rfl⟩ := ha
  apply Yields.bind (yields_ascription? (by decide) s')
  intro t _ _ _ ht
  apply Yields.pure
  simpa using DerivesParameter.mk hkind ht

theorem yields_separated {item : Parser α} {f : Token → α} {separator : TokenKind}
    (hitem : ∀ s, Yields (fun taken a _ => ∃ token, taken = [token] ∧ token.kind = .identifier ∧
      a = f token) item s)
    (hseparator : separator ≠ .endOfFile) (bound : Nat) (s : Cursor) :
    Yields (fun taken as _ => ∃ tokens, as = tokens.map f ∧ Names separator tokens taken)
      (separated item separator bound) s := by
  induction bound generalizing s with
  | zero =>
    apply Yields.bind (hitem s)
    intro a _ _ _ ha
    apply Yields.pure
    obtain ⟨token, rfl, hkind, rfl⟩ := ha
    exact ⟨[token], rfl, .one hkind⟩
  | succ bound ih =>
    rw [separated]
    apply Yields.bind (hitem s)
    intro a s' _ _ ha
    apply Yields.look rfl
    obtain ⟨token, rfl, hkind, rfl⟩ := ha
    split
    · next hbetween =>
      apply Yields.bind (.skip hbetween hseparator)
      intro _ s'' _ _ htaken
      apply Yields.bind (ih s'')
      intro as _ taken _ has
      apply Yields.pure
      obtain ⟨tokens, rfl, hnames⟩ := has
      exact ⟨token :: tokens, rfl, by simpa [htaken] using Names.more hkind hbetween hnames⟩
    · exact .pure ⟨[token], rfl, .one hkind⟩

/-! ### Statements -/

theorem yields_declaration (hkind : s.current.kind = .wordLet ∨ s.current.kind = .wordConst)
    (start : Position) (global : Bool) :
    Yields (fun taken st _ => (∃ tokens, taken = s.current :: tokens) ∧
      DerivesDeclaration start global taken st) (declaration start global) s := by
  have hne : s.current.kind ≠ .endOfFile := by rcases hkind with h | h <;> rw [h] <;> decide
  apply Yields.bind (.advance rfl hne)
  intro opening s _ _ hopening
  obtain ⟨rfl, rfl⟩ := hopening
  apply Yields.bind (.expectBecause _ (by decide))
  intro token s _ _ htoken
  apply Yields.bind (yields_ascription? (by decide) s)
  intro ascription s _ _ hascription
  apply Yields.bind (.expectBecause _ (by decide))
  intro equals s _ _ hequals
  apply Yields.bind (yields_expr s)
  intro e s _ _ he
  refine .bind (.expect (by decide)) fun closing _ _ _ hclosing => .pure ⟨⟨_, rfl⟩, ?_⟩
  simpa [name, htoken.1, hequals.1, hclosing.1] using
    DerivesDeclaration.mk hkind htoken.2 hascription hequals.2 he hclosing.2

theorem yields_globalDeclaration (hkind : s.current.kind = .wordGlobal) :
    Yields (fun taken st _ => DerivesStmt taken st) globalDeclaration s := by
  apply Yields.bind (.advance hkind (by decide))
  intro word s _ _ hword
  apply Yields.look rfl
  obtain ⟨rfl, rfl⟩ := hword
  split
  · next hlet =>
    exact (yields_declaration (.inl hlet) _ _).imp fun _ _ _ _ h => .globalDeclaration hkind h.2
  · next hconst =>
    exact (yields_declaration (.inr hconst) _ _).imp fun _ _ _ _ h => .globalDeclaration hkind h.2
  · exact .fail rfl

theorem yields_importNames (hkind : s.current.kind = .wordImport) :
    Yields (fun taken st _ => DerivesStmt taken st) importNames s := by
  have hpath (s : Cursor) : Yields (fun taken a _ => ∃ token, taken = [token] ∧
      token.kind = .identifier ∧ a = token.text) (do return (← expect .identifier).text) s :=
    .bind (.expect (by decide)) fun token _ _ _ h => .pure ⟨token, by simpa using h.1, h.2, rfl⟩
  apply Yields.bind (.advance hkind (by decide))
  intro opening s _ _ hopening
  obtain ⟨rfl, rfl⟩ := hopening
  apply Yields.bind (.bounded (yields_separated yields_identifier (by decide) _ s))
  intro _ s _ _ hn
  obtain ⟨names, rfl, hnames⟩ := hn
  apply Yields.bind (.expectBecause _ (by decide))
  intro word s _ _ hword
  apply Yields.bind (.bounded (yields_separated hpath (by decide) _ s))
  intro _ s _ _ hp
  obtain ⟨path, rfl, hpath⟩ := hp
  apply Yields.bind (.expect (by decide))
  intro closing _ _ _ hclosing
  apply Yields.pure
  simpa [hword.1, hclosing.1] using
    DerivesStmt.importNames hkind hnames hword.2 hpath hclosing.2

theorem yields_reassignment (hname : s.current.kind = .identifier)
    (hoperator : s.nextKind = .assignment ∨ (BinaryOp.ofCompound? s.nextKind).isSome) :
    Yields (fun taken st _ => DerivesStmt taken st) reassignment s := by
  intro hproper
  have hnext : s.advance.current.kind = s.nextKind := Cursor.kind_current_advance hproper.stop
  have hne : s.advance.current.kind ≠ .endOfFile := fun h => by
    rw [hnext] at h
    rw [h] at hoperator
    simp [BinaryOp.ofCompound?] at hoperator
  have hfirst : Yields (fun taken token s' => (taken = [token] ∧ token = s.current) ∧
      s' = s.advance) advance s := by
    intro hproper token s' hresult
    obtain ⟨hstop, taken, hrest, h⟩ :=
      Yields.advance hname (by decide) hproper token s' hresult
    cases hresult
    exact ⟨hstop, taken, hrest, h, rfl⟩
  refine Yields.bind hfirst (fun token s' _ _ h => ?_) hproper
  obtain ⟨⟨rfl, rfl⟩, rfl⟩ := h
  apply Yields.bind (.advance rfl hne)
  intro operator s' _ _ h
  obtain ⟨rfl, rfl⟩ := h
  rw [← hnext] at hoperator
  apply Yields.bind (yields_expr s')
  intro e s' _ _ he
  apply Yields.bind (.expect (by decide))
  intro closing _ _ _ hclosing
  apply Yields.pure
  cases hop : BinaryOp.ofCompound? s.advance.current.kind with
  | none =>
    have hassignment : s.advance.current.kind = .assignment := by simpa [hop] using hoperator
    simpa [name, hclosing.1] using DerivesStmt.reassignment hname hassignment he hclosing.2
  | some op => simpa [name, hclosing.1] using DerivesStmt.compound hname hop he hclosing.2

theorem yields_result? (s : Cursor) :
    Yields (fun taken value _ => taken = [] ∧ value = none ∨
      ∃ e, value = some e ∧ Derives .logical taken e) result? s := by
  rw [result?]
  apply Yields.look rfl
  split
  · exact .pure (.inl ⟨rfl, rfl⟩)
  · exact .bind (yields_expr s) fun e _ _ _ he => .pure (.inr ⟨e, rfl, by simpa using he⟩)

theorem yields_returnValue (hkind : s.current.kind = .wordReturn) :
    Yields (fun taken st _ => DerivesStmt taken st) returnValue s := by
  apply Yields.bind (.advance hkind (by decide))
  intro opening s _ _ hopening
  obtain ⟨rfl, rfl⟩ := hopening
  apply Yields.bind (yields_result? s)
  intro value s _ _ hvalue
  apply Yields.bind (.expect (by decide))
  intro closing _ _ _ hclosing
  apply Yields.pure
  obtain ⟨rfl, rfl⟩ | ⟨e, rfl, he⟩ := hvalue
  · simpa [hclosing.1] using DerivesStmt.returnNothing hkind hclosing.2
  · simpa [hclosing.1] using DerivesStmt.returnValue hkind he hclosing.2

theorem yields_expression (s : Cursor) :
    Yields (fun taken st _ => DerivesStmt taken st) expression s := by
  apply Yields.bind (yields_expr s)
  intro e s _ _ he
  apply Yields.bind (.expect (by decide))
  intro closing _ _ _ hclosing
  apply Yields.pure
  simpa [hclosing.1] using DerivesStmt.expression he hclosing.2

section

variable {stmt : Parser Stmt} (hstmt : ∀ s, Yields (fun taken st _ => DerivesStmt taken st) stmt s)

include hstmt

theorem yields_blockStatements (bound : Nat) (s : Cursor) :
    Yields (fun taken result _ => ∃ items : List (List Token × Stmt),
      taken = items.flatMap Prod.fst ++ [result.2] ∧ result.2.kind = .closeCurly ∧
      result.1 = items.map Prod.snd ∧ ∀ item ∈ items, DerivesStmt item.1 item.2)
      (blockStatements stmt bound) s := by
  induction bound generalizing s with
  | zero => exact .fail rfl
  | succ bound ih =>
    unfold blockStatements
    apply Yields.look rfl
    split
    · next hkind =>
      apply Yields.bind (.skip hkind (by decide))
      intro _ _ _ _ htaken
      apply Yields.pure
      exact ⟨[], by simpa using htaken, hkind, rfl, nofun⟩
    · exact .fail rfl
    · apply Yields.bind (hstmt s)
      intro first s' taken _ hfirst
      apply Yields.bind (ih s')
      intro result _ _ _ hresult
      apply Yields.pure
      obtain ⟨items, rfl, hkind, hitems, hall⟩ := hresult
      refine ⟨(taken, first) :: items, by simp, hkind, by simp [hitems], ?_⟩
      simpa using ⟨hfirst, fun tokens st hmem => hall (tokens, st) hmem⟩

theorem yields_block (bound : Nat) (s : Cursor) :
    Yields (fun taken b _ => DerivesBlock taken b) (block stmt bound) s := by
  apply Yields.bind (.expectBecause _ (by decide))
  intro opening s _ _ hopening
  apply Yields.bind (yields_blockStatements hstmt bound s)
  intro result _ _ _ hresult
  apply Yields.pure
  obtain ⟨items, rfl, hkind, hitems, hall⟩ := hresult
  simpa [hopening.1, hitems] using DerivesBlock.mk hopening.2 hall hkind

theorem yields_conditional (hkind : s.current.kind = .wordIf) (bound : Nat) :
    Yields (fun taken branch _ => DerivesConditional taken branch) (conditional stmt bound) s := by
  induction bound generalizing s with
  | zero => exact .fail rfl
  | succ bound ih =>
    apply Yields.bind (.advance hkind (by decide))
    intro opening s _ _ hopening
    obtain ⟨rfl, rfl⟩ := hopening
    apply Yields.bind (yields_expr s)
    intro e s _ _ he
    apply Yields.bind (yields_block hstmt bound s)
    intro body s _ _ hbody
    apply Yields.look rfl
    split
    · next helse =>
      apply Yields.bind (.skip helse (by decide))
      intro _ s' _ _ hword
      apply Yields.look rfl
      split
      · next hif =>
        apply Yields.bind (ih hif)
        intro branch _ _ _ hbranch
        apply Yields.pure
        simpa [hword] using DerivesConditional.withConditional hkind he hbody helse hbranch
      · apply Yields.bind (yields_block hstmt bound s')
        intro otherwise _ _ _ hotherwise
        apply Yields.pure
        simpa [hword] using DerivesConditional.withBlock hkind he hbody helse hotherwise
    · exact .pure (by simpa using DerivesConditional.plain hkind he hbody)

theorem yields_loop (hkind : s.current.kind = .wordWhile) (bound : Nat) :
    Yields (fun taken st _ => DerivesStmt taken st) (loop stmt bound) s := by
  apply Yields.bind (.advance hkind (by decide))
  intro opening s _ _ hopening
  obtain ⟨rfl, rfl⟩ := hopening
  apply Yields.bind (yields_expr s)
  intro e s _ _ he
  apply Yields.bind (yields_block hstmt bound s)
  intro body _ _ _ hbody
  apply Yields.pure
  simpa using DerivesStmt.loop hkind he hbody

theorem yields_function (hkind : s.current.kind = .wordFn) (bound : Nat) :
    Yields (fun taken st _ => DerivesStmt taken st) (function stmt bound) s := by
  apply Yields.bind (.advance hkind (by decide))
  intro opening s _ _ hopening
  obtain ⟨rfl, rfl⟩ := hopening
  apply Yields.bind (yields_identifier s)
  intro _ s _ _ ha
  obtain ⟨token, rfl, htoken, rfl⟩ := ha
  apply Yields.bind (.expect (by decide))
  intro left s _ _ hleft
  apply Yields.bind (yields_items (fun s _ => yields_parameter s) (by decide) bound (Nat.le_refl _))
  intro result s _ _ hresult
  obtain ⟨items, tokens, rfl, hright, hitems, hall, hcommas⟩ := hresult
  apply Yields.bind (yields_ascription? (by decide) s)
  intro returns s _ _ hreturns
  apply Yields.bind (yields_block hstmt bound s)
  intro body _ _ _ hbody
  apply Yields.pure
  simpa [hleft.1, hitems] using
    DerivesStmt.function hkind htoken hleft.2 hall hcommas hright hreturns hbody

end

theorem yields_stmtWithin (bound : Nat) (s : Cursor) :
    Yields (fun taken st _ => DerivesStmt taken st) (stmtWithin bound) s := by
  induction bound generalizing s with
  | zero => exact .fail rfl
  | succ bound ih =>
    have hdeclaration (hkind : s.current.kind = .wordLet ∨ s.current.kind = .wordConst) :
        Yields (fun taken st _ => DerivesStmt taken st)
          (declaration s.current.span.start false) s := by
      apply (yields_declaration hkind _ _).imp
      intro taken st _ _ h
      obtain ⟨⟨tokens, rfl⟩, h⟩ := h
      exact .declaration h
    rw [stmtWithin]
    apply Yields.look rfl
    split
    · next hkind => exact .look rfl (hdeclaration (.inl hkind))
    · next hkind => exact .look rfl (hdeclaration (.inr hkind))
    · next hkind => exact yields_globalDeclaration hkind
    · next hkind => exact yields_importNames hkind
    · next hkind =>
      apply Yields.bind (yields_conditional ih hkind _)
      intro branch _ _ _ h
      apply Yields.pure
      simpa using DerivesStmt.conditional h
    · next hkind => exact yields_loop ih hkind bound
    · next hkind => exact yields_function ih hkind bound
    · next hkind => exact yields_returnValue hkind
    · apply Yields.look (startsReassignment_eq s)
      split
      · next hstarts =>
        obtain ⟨hname, hoperator⟩ := of_decide_eq_true hstarts
        exact yields_reassignment hname hoperator
      · exact yields_expression s

theorem yields_stmt (s : Cursor) : Yields (fun taken st _ => DerivesStmt taken st) stmt s :=
  .bounded (yields_stmtWithin _ s)

end Parser

end Script
