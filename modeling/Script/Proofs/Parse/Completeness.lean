import Script.Proofs.Parse.Phrases
import Script.Proofs.Parse.Soundness

/-!
# What can be derived is read

Every phrase of the grammar is read whole wherever it stands, and gives its own tree, if what
follows it cannot go on with it. For expressions the derivation is followed along its left edge:
there the parser has read an operand and goes on to extend it.
-/

namespace Script

open Grammar

namespace Parser

variable {stop : Token}

section

variable {s s' : Cursor} {result : EStateM.Result Error Cursor α}

theorem bind_eq {p : Parser β} {f : β → Parser α} {b : β} (hp : p s = .ok b s')
    (hf : f b s' = result) : (p >>= f) s = result := by
  simp only [Bind.bind, EStateM.bind, hp, hf]

theorem current_eq {f : Token → Parser α} {token : Token} {rest : List Token}
    (hf : f token ⟨token :: rest, stop⟩ = result) :
    (current >>= f) ⟨token :: rest, stop⟩ = result :=
  hf

theorem kind_eq {f : TokenKind → Parser α} {token : Token} {rest : List Token}
    (hf : f token.kind ⟨token :: rest, stop⟩ = result) :
    (kind >>= f) ⟨token :: rest, stop⟩ = result :=
  hf

theorem skip_eq {p : Parser α} {token : Token} {rest : List Token}
    (hp : p ⟨rest, stop⟩ = result) : (do skip; p) ⟨token :: rest, stop⟩ = result :=
  hp

theorem then_eq {c : Prop} [Decidable c] {p q : Parser α} (hc : c) (hp : p s = result) :
    (if c then p else q) s = result := by
  rw [if_pos hc, hp]

theorem else_eq {c : Prop} [Decidable c] {p q : Parser α} (hc : ¬c) (hq : q s = result) :
    (if c then p else q) s = result := by
  rw [if_neg hc, hq]

end

theorem expect_eq {kind : TokenKind} {token : Token} {rest : List Token} (h : token.kind = kind) :
    expect kind ⟨token :: rest, stop⟩ = .ok token ⟨rest, stop⟩ :=
  current_eq (then_eq h rfl)

theorem expectBecause_eq {kind : TokenKind} {message : String} {token : Token} {rest : List Token}
    (h : token.kind = kind) :
    expectBecause kind message ⟨token :: rest, stop⟩ = .ok token ⟨rest, stop⟩ :=
  current_eq (then_eq h rfl)

/-- A bound on tokens that are there is a successor. -/
theorem exists_succ {tokens : List Token} {n : Nat} (hne : tokens ≠ [])
    (h : tokens.length ≤ n) : ∃ m, n = m + 1 := by
  have hpos := List.length_pos_iff.2 hne
  exact ⟨n - 1, by omega⟩

/-- The tokens behind some that are left behind are proper too. -/
theorem proper_of_append {taken rest : List Token} (h : Cursor.Proper ⟨taken ++ rest, stop⟩) :
    Cursor.Proper ⟨rest, stop⟩ :=
  h.of_append rfl rfl

theorem proper_of_cons {token : Token} {rest : List Token}
    (h : Cursor.Proper ⟨token :: rest, stop⟩) : Cursor.Proper ⟨rest, stop⟩ :=
  proper_of_append (show Cursor.Proper ⟨[token] ++ rest, stop⟩ from h)

/-! ### Lists of items -/

/-- Phrases of `D` are read by `item` in front of a comma and of the closing token, and do not begin
with the latter. -/
structure ReadsItems (D : List Token → α → Prop) (item : Parser α) (close : TokenKind) (n : Nat)
    (stop : Token) : Prop where
  close_ne : close ≠ .comma
  first : ∀ {tokens a}, D tokens a → ∃ token rest, tokens = token :: rest ∧ token.kind ≠ close
  read : ∀ {tokens a} {next : Token} {rest}, D tokens a →
    next.kind = .comma ∨ next.kind = close → (tokens ++ next :: rest).length ≤ n →
    Cursor.Proper ⟨tokens ++ next :: rest, stop⟩ →
    item ⟨tokens ++ next :: rest, stop⟩ = .ok a ⟨next :: rest, stop⟩

theorem items_eq {D : List Token → α → Prop} {item : Parser α} {close : TokenKind}
    (message : String) {n : Nat} (h : ReadsItems D item close n stop)
    {list : List (List Token × α)} {tokens rest : List Token} {closing : Token}
    (hcommas : Commas (list.map Prod.fst) tokens) (hall : ∀ entry ∈ list, D entry.1 entry.2)
    (hclosing : closing.kind = close) {bound : Nat}
    (hbound : (tokens ++ closing :: rest).length ≤ bound)
    (hn : (tokens ++ closing :: rest).length ≤ n)
    (hproper : Cursor.Proper ⟨tokens ++ closing :: rest, stop⟩) :
    items item close message bound ⟨tokens ++ closing :: rest, stop⟩ =
      .ok (list.map Prod.snd, closing) ⟨rest, stop⟩ := by
  generalize hphrases : list.map Prod.fst = phrases at hcommas
  induction hcommas generalizing list bound with
  | nil =>
    obtain rfl := List.map_eq_nil_iff.1 hphrases
    obtain ⟨bound, rfl⟩ := exists_succ (by simp) hbound
    exact current_eq (then_eq hclosing (skip_eq rfl))
  | @last phrase =>
    obtain ⟨⟨tokens, a⟩, list', rfl, rfl, hnil⟩ := List.map_eq_cons_iff.1 hphrases
    obtain rfl := List.map_eq_nil_iff.1 hnil
    have hentry := hall _ List.mem_cons_self
    obtain ⟨first, tail, rfl, hfirst⟩ := h.first hentry
    obtain ⟨bound, rfl⟩ := exists_succ (by simp) hbound
    refine current_eq (else_eq hfirst ?_)
    refine bind_eq (h.read hentry (.inr hclosing) hn hproper) (current_eq ?_)
    exact else_eq (hclosing ▸ h.close_ne) (then_eq hclosing (skip_eq rfl))
  | @cons phrase rest' phrases comma hcomma _ ih =>
    obtain ⟨⟨tokens, a⟩, list', rfl, rfl, hrest⟩ := List.map_eq_cons_iff.1 hphrases
    have hentry := hall _ List.mem_cons_self
    obtain ⟨first, tail, rfl, hfirst⟩ := h.first hentry
    obtain ⟨bound, rfl⟩ := exists_succ (by simp) hbound
    simp only [List.append_assoc, List.cons_append] at hbound hn hproper ⊢
    refine current_eq (else_eq hfirst ?_)
    refine bind_eq (h.read hentry (.inl hcomma) hn hproper) (current_eq (then_eq hcomma ?_))
    refine skip_eq (bind_eq (ih ?_ ?_ ?_ ?_ hrest) rfl)
    · exact fun entry hmem => hall entry (List.mem_cons_of_mem _ hmem)
    · simp at hbound ⊢
      omega
    · simp at hn ⊢
      omega
    · exact proper_of_cons (proper_of_append (proper_of_cons hproper))

/-! ### Expressions -/

/-- What follows binds at most as tight as a number says. -/
def Follows (rank : Nat) (rest : List Token) : Prop :=
  ∀ token ∈ rest.head?, (Power.ofKind token.kind).rank ≤ rank

theorem follows_cons {rank : Nat} {token : Token} {rest : List Token}
    (h : (Power.ofKind token.kind).rank ≤ rank) : Follows rank (token :: rest) := by
  intro other hmem
  obtain rfl : token = other := by simpa using hmem
  exact h

theorem Follows.mono {rank rank' : Nat} {rest : List Token} (h : Follows rank rest)
    (hle : rank ≤ rank') : Follows rank' rest :=
  fun token hmem => Nat.le_trans (h token hmem) hle

/-- Behind an expression that reaches as far as the power allows there is nothing to take in. -/
theorem extend_eq {inner : ExprReader} {power : Power} {bound : Nat} {e : Expr} {rest : List Token}
    (hstop : stop.kind = .endOfFile) (hnext : Follows power.rank rest) :
    extend inner power bound e ⟨rest, stop⟩ = .ok e ⟨rest, stop⟩ := by
  cases bound with
  | zero => rfl
  | succ bound =>
    cases rest with
    | nil =>
      refine bind_eq (p := Parser.current) rfl (then_eq ?_ rfl)
      show (Power.ofKind stop.kind).rank ≤ power.rank
      rw [hstop]
      exact Nat.zero_le _
    | cons token rest => exact current_eq (then_eq (hnext token rfl) rfl)

theorem continuation_of_operator {level : Level} {kind : TokenKind} {op : BinaryOp}
    (h : kind ∈ level.operators) (hop : BinaryOp.ofKind? kind = some op) :
    Continuation.ofKind? kind = some (.binary op) ∧
      level.rank = (Power.ofKind kind).rank ∧ level.next = (Power.ofKind kind).above ∧
      (Power.ofKind kind).rank ≤ 4 := by
  have hc : Continuation.ofKind? kind = some (.binary op) := by
    unfold Continuation.ofKind?
    split
    · cases hop
    · cases hop
    · rw [hop]
      rfl
  refine ⟨hc, ?_⟩
  cases level <;> cases kind <;> first | decide | exact absurd h (by decide)

theorem above_rank {power : Power} (h : power.above.rank ≤ 4) :
    power.above.rank = power.rank + 1 := by
  cases power <;> first | rfl | exact absurd h (by decide)

section

variable {inner : ExprReader} {n : Nat}
  (hinner : ∀ (power : Power) (tokens rest : List Token) (e : Expr), power.rank ≤ 5 →
    Derives power.above tokens e → Follows power.rank rest → (tokens ++ rest).length ≤ n →
    Cursor.Proper ⟨tokens ++ rest, stop⟩ →
    inner power ⟨tokens ++ rest, stop⟩ = .ok e ⟨rest, stop⟩)

include hinner

theorem readsItems_inner {close : TokenKind} (hcomma : close ≠ .comma) (hfirst : close ∉ openings)
    (hrank : (Power.ofKind close).rank = 0) :
    ReadsItems (Derives .logical) (inner .lowest) close n stop where
  close_ne := hcomma
  first := by
    intro tokens e he
    obtain ⟨token, rest, htokens, hkind⟩ := he.first
    exact ⟨token, rest, htokens, fun heq => hfirst (heq ▸ hkind)⟩
  read := by
    intro tokens e next rest he hnext hlength hproper
    refine hinner .lowest tokens (next :: rest) e (by decide) he (follows_cons ?_) hlength hproper
    obtain hkind | hkind := hnext
    · rw [hkind]
      decide
    · rw [hkind, hrank]
      exact Nat.zero_le _

theorem expressions_eq {items : List (List Token × Expr)} {tokens rest : List Token}
    {closing : Token} {close : TokenKind} (hcomma : close ≠ .comma) (hfirst : close ∉ openings)
    (hrank : (Power.ofKind close).rank = 0) (hall : ∀ item ∈ items, Derives .logical item.1 item.2)
    (hcommas : Commas (items.map Prod.fst) tokens) (hclosing : closing.kind = close) {bound : Nat}
    (hbound : (tokens ++ closing :: rest).length ≤ bound)
    (hn : (tokens ++ closing :: rest).length ≤ n)
    (hproper : Cursor.Proper ⟨tokens ++ closing :: rest, stop⟩) :
    expressions inner close bound ⟨tokens ++ closing :: rest, stop⟩ =
      .ok (items.map Prod.snd, closing) ⟨rest, stop⟩ :=
  items_eq _ (readsItems_inner hinner hcomma hfirst hrank) hcommas hall hclosing hbound hn hproper

/-- From the start of a phrase the parser comes behind it, and goes on to extend its tree. -/
theorem operand_extend_eq {power : Power} (hpower : power.rank ≤ 5) {level : Level}
    {tokens rest : List Token} {e : Expr} (he : Derives level tokens e)
    (hlevel : power.above.rank ≤ level.rank) (hnext : Follows level.rank rest)
    (hn : (tokens ++ rest).length ≤ n + 1) (hproper : Cursor.Proper ⟨tokens ++ rest, stop⟩) :
    ∃ bound, rest.length ≤ bound ∧ bound ≤ n ∧
      (do let left ← operand inner n; extend inner power n left) ⟨tokens ++ rest, stop⟩ =
        extend inner power bound e ⟨rest, stop⟩ := by
  have operand_only {tokens rest : List Token} {e : Expr} (hne : tokens ≠ [])
      (hn : (tokens ++ rest).length ≤ n + 1)
      (h : operand inner n ⟨tokens ++ rest, stop⟩ = .ok e ⟨rest, stop⟩) :
      ∃ bound, rest.length ≤ bound ∧ bound ≤ n ∧
        (do let left ← operand inner n; extend inner power n left) ⟨tokens ++ rest, stop⟩ =
          extend inner power bound e ⟨rest, stop⟩ := by
    have hpos := List.length_pos_iff.2 hne
    rw [List.length_append] at hn
    exact ⟨n, by omega, Nat.le_refl n, bind_eq h rfl⟩
  induction he generalizing rest with
  | @number token value hkind hvalue =>
    apply operand_only (by simp) hn
    have hnumeral := hproper.numerals token (by simp) hkind
    have hof := (Integer.ofText?_of_isNumeral hnumeral).2 hvalue
    rw [operand]
    apply current_eq
    simp only [hkind, hof]
    rfl
  | string hkind | symbol hkind | true hkind | false hkind =>
    apply operand_only (by simp) hn
    rw [operand]
    apply current_eq
    simp only [hkind]
    rfl
  | @group opening closing tokens e hopening he hclosing _ =>
    apply operand_only (by simp) hn
    simp only [List.cons_append, List.append_assoc] at hn hproper ⊢
    rw [operand]
    apply current_eq
    simp only [hopening]
    have hvalue := hinner .lowest tokens (closing :: rest) e (by decide) he
      (follows_cons (by rw [hclosing]; decide)) (by simpa using hn) (proper_of_cons hproper)
    exact skip_eq (bind_eq hvalue (bind_eq (expect_eq hclosing) rfl))
  | @list opening closing items tokens hopening hall hcommas hclosing _ =>
    apply operand_only (by simp) hn
    simp only [List.cons_append, List.append_assoc] at hn hproper ⊢
    rw [operand]
    apply current_eq
    simp only [hopening]
    have hlength : (tokens ++ closing :: rest).length ≤ n := by
      simpa using hn
    have hitems := expressions_eq hinner (by decide) (by decide) rfl hall hcommas hclosing hlength
      hlength (proper_of_cons hproper)
    exact skip_eq (bind_eq hitems rfl)
  | @call callee tokens f opening closing items hf hopening hall hcommas hclosing ihf _ =>
    simp only [List.cons_append, List.append_assoc, List.nil_append] at hn hproper ⊢
    have hpower' : ¬Power.ofKind opening.kind ≤ power := by
      rw [hopening]
      exact Nat.not_le_of_lt (Nat.lt_succ_of_le hpower)
    obtain ⟨bound, hle, hbound, h⟩ :=
      ihf hlevel (follows_cons (by rw [hopening]; decide)) hn hproper
    obtain ⟨bound, rfl⟩ := exists_succ (by simp) hle
    simp only [List.length_cons, List.length_append] at hle
    refine ⟨bound, by omega, by omega, h.trans ?_⟩
    rw [extend]
    refine current_eq (else_eq hpower' ?_)
    simp only [hopening, Continuation.ofKind?]
    have hlength : (tokens ++ closing :: rest).length ≤ bound := by
      rw [List.length_append, List.length_cons]
      omega
    have hitems := expressions_eq hinner (by decide) (by decide) rfl hall hcommas hclosing hlength
      (by omega) (proper_of_cons (proper_of_append hproper))
    exact skip_eq (bind_eq hitems rfl)
  | @index target tokens e i opening closing he hopening hi hclosing ihe _ =>
    simp only [List.cons_append, List.append_assoc, List.nil_append] at hn hproper ⊢
    have hpower' : ¬Power.ofKind opening.kind ≤ power := by
      rw [hopening]
      exact Nat.not_le_of_lt (Nat.lt_succ_of_le hpower)
    obtain ⟨bound, hle, hbound, h⟩ :=
      ihe hlevel (follows_cons (by rw [hopening]; decide)) hn hproper
    obtain ⟨bound, rfl⟩ := exists_succ (by simp) hle
    simp only [List.length_cons, List.length_append] at hle
    refine ⟨bound, by omega, by omega, h.trans ?_⟩
    rw [extend]
    refine current_eq (else_eq hpower' ?_)
    simp only [hopening, Continuation.ofKind?]
    have hvalue := hinner .lowest tokens (closing :: rest) i (by decide) hi
      (follows_cons (by rw [hclosing]; decide)) (by simp; omega)
      (proper_of_cons (proper_of_append hproper))
    exact skip_eq (bind_eq hvalue (bind_eq (expect_eq hclosing) rfl))
  | @unary token op tokens e hop he _ =>
    apply operand_only (by simp) hn
    have hvalue := hinner .unary tokens rest e (by decide) he hnext (by simpa using hn)
      (proper_of_cons hproper)
    rw [operand]
    apply current_eq
    obtain ⟨hkind, rfl⟩ | ⟨hkind, rfl⟩ := kind_of_unary hop
    · simp only [hkind, UnaryOp.ofKind?]
      exact skip_eq (bind_eq hvalue rfl)
    · simp only [hkind, UnaryOp.ofKind?]
      exact skip_eq (bind_eq hvalue rfl)
  | @binary level token op left right a b hmem hop ha hb iha _ =>
    obtain ⟨hc, hrank, hlevel', hle⟩ := continuation_of_operator hmem hop
    simp only [List.cons_append, List.append_assoc] at hn hproper ⊢
    have hpower' : ¬Power.ofKind token.kind ≤ power := by
      have habove : power.above.rank ≤ 4 := by
        omega
      have hsucc := above_rank habove
      exact Nat.not_le_of_lt (by omega)
    obtain ⟨bound, hle, hbound, h⟩ := iha hlevel (follows_cons (by omega)) hn hproper
    obtain ⟨bound, rfl⟩ := exists_succ (by simp) hle
    simp only [List.length_cons, List.length_append] at hle
    refine ⟨bound, by omega, by omega, h.trans ?_⟩
    rw [extend]
    refine current_eq (else_eq hpower' ?_)
    simp only [hc]
    have hvalue := hinner (.ofKind token.kind) right rest b (by omega) (hlevel' ▸ hb)
      (hrank ▸ hnext) (by simp; omega) (proper_of_cons (proper_of_append hproper))
    exact skip_eq (bind_eq hvalue rfl)
  | @tighter level tokens e he ih =>
    have hle : level.rank ≤ level.next.rank := by
      cases level <;> decide
    exact ih (Nat.le_trans hlevel hle) (hnext.mono hle) hn hproper

end

theorem exprWithin_eq {bound : Nat} (power : Power) (tokens rest : List Token) (e : Expr)
    (hpower : power.rank ≤ 5) (he : Derives power.above tokens e) (hnext : Follows power.rank rest)
    (hbound : (tokens ++ rest).length ≤ bound) (hproper : Cursor.Proper ⟨tokens ++ rest, stop⟩) :
    exprWithin bound power ⟨tokens ++ rest, stop⟩ = .ok e ⟨rest, stop⟩ := by
  induction bound generalizing power tokens rest e with
  | zero =>
    obtain ⟨token, tokens, rfl, -⟩ := he.first
    exact absurd hbound (Nat.not_succ_le_zero _)
  | succ bound ih =>
    have hle : power.rank ≤ power.above.rank := by
      cases power <;> decide
    obtain ⟨bound', -, -, h⟩ :=
      operand_extend_eq ih hpower he (Nat.le_refl _) (hnext.mono hle) hbound hproper
    exact h.trans (extend_eq hproper.stop hnext)

theorem expr_eq {tokens rest : List Token} {e : Expr} (he : Derives .logical tokens e)
    (hnext : Follows 0 rest) (hproper : Cursor.Proper ⟨tokens ++ rest, stop⟩) :
    expr ⟨tokens ++ rest, stop⟩ = .ok e ⟨rest, stop⟩ :=
  exprWithin_eq .lowest tokens rest e (by decide) he hnext (Nat.le_refl _) hproper

/-! ### Parts of statements -/

section

variable {token next : Token} {tokens rest : List Token}

theorem identifier_eq (h : token.kind = .identifier) :
    identifier ⟨token :: rest, stop⟩ = .ok (name token) ⟨rest, stop⟩ :=
  bind_eq (expect_eq h) rfl

/-- From the start of a type the parser comes behind it, and goes on with brackets. -/
theorem typeExpr_suffixes_eq (stop : Token) {type : TypeExpr} (h : DerivesType tokens type)
    (rest : List Token) : ∃ bound, rest.length ≤ bound ∧
      typeExpr ⟨tokens ++ rest, stop⟩ = typeSuffixes bound type ⟨rest, stop⟩ := by
  induction h generalizing rest with
  | named hkind => exact ⟨rest.length, Nat.le_refl _, bind_eq (expect_eq hkind) rfl⟩
  | @listOf tokens element opening closing _ hopening hclosing ih =>
    obtain ⟨bound, hle, h⟩ := ih (opening :: closing :: rest)
    obtain ⟨bound, rfl⟩ := exists_succ (by simp) hle
    simp only [List.length_cons] at hle
    refine ⟨bound, by omega, ?_⟩
    rw [List.append_assoc]
    apply h.trans
    rw [typeSuffixes]
    apply kind_eq
    simp only [hopening]
    exact skip_eq (bind_eq (expect_eq hclosing) rfl)

theorem typeExpr_eq {type : TypeExpr} (h : DerivesType tokens type)
    (hnext : next.kind ∉ [.openBracket, .identifier]) :
    typeExpr ⟨tokens ++ next :: rest, stop⟩ = .ok type ⟨next :: rest, stop⟩ := by
  obtain ⟨bound, -, h⟩ := typeExpr_suffixes_eq stop h (next :: rest)
  apply h.trans
  cases bound with
  | zero => rfl
  | succ bound =>
    rw [typeSuffixes]
    refine kind_eq (congrFun (g := (pure type : Parser TypeExpr)) ?_ _)
    split
    · next hkind => exact absurd (by rw [hkind]; decide) hnext
    · next hkind => exact absurd (by rw [hkind]; decide) hnext
    · rfl

theorem ascription?_eq {introducer : TokenKind} {ascription : Option TypeExpr}
    (h : DerivesAscription introducer tokens ascription)
    (hnext : next.kind ∉ [introducer, .openBracket, .identifier]) :
    ascription? introducer ⟨tokens ++ next :: rest, stop⟩ =
      .ok ascription ⟨next :: rest, stop⟩ := by
  cases h with
  | nothing =>
    refine kind_eq (else_eq ?_ rfl)
    exact fun heq => hnext (heq ▸ List.mem_cons_self)
  | type hkind htype =>
    refine kind_eq (then_eq hkind (skip_eq (bind_eq (typeExpr_eq htype ?_) rfl)))
    exact fun hmem => hnext (List.mem_cons_of_mem _ hmem)

theorem parameter_eq {p : Parameter} (h : DerivesParameter tokens p)
    (hnext : next.kind = .comma ∨ next.kind = .closeParen) :
    parameter ⟨tokens ++ next :: rest, stop⟩ = .ok p ⟨next :: rest, stop⟩ := by
  obtain ⟨hkind, hascription⟩ := h
  refine bind_eq (identifier_eq hkind) (bind_eq (ascription?_eq hascription ?_) rfl)
  obtain hnext | hnext := hnext
  · rw [hnext]
    decide
  · rw [hnext]
    decide

theorem readsItems_parameter (n : Nat) (stop : Token) :
    ReadsItems DerivesParameter parameter .closeParen n stop where
  close_ne := by decide
  first := by
    intro tokens p h
    obtain ⟨hkind, _⟩ := h
    exact ⟨_, _, rfl, by rw [hkind]; decide⟩
  read := fun h hnext _ _ => parameter_eq h hnext

theorem separated_eq {item : Parser α} {f : Token → α} {separator : TokenKind}
    (hitem : ∀ token rest, token.kind = .identifier →
      item ⟨token :: rest, stop⟩ = .ok (f token) ⟨rest, stop⟩)
    {names : List Token} (h : Names separator names tokens) (hnext : next.kind ≠ separator)
    {bound : Nat} (hbound : tokens.length ≤ bound) :
    separated item separator bound ⟨tokens ++ next :: rest, stop⟩ =
      .ok (names.map f) ⟨next :: rest, stop⟩ := by
  induction h generalizing bound with
  | one hkind =>
    obtain ⟨bound, rfl⟩ := exists_succ (by simp) hbound
    exact bind_eq (hitem _ _ hkind) (kind_eq (else_eq hnext rfl))
  | more hkind hseparator _ ih =>
    obtain ⟨bound, rfl⟩ := exists_succ (by simp) hbound
    simp only [List.length_cons] at hbound
    refine bind_eq (hitem _ _ hkind) (kind_eq (then_eq hseparator (skip_eq ?_)))
    exact bind_eq (ih (by omega)) rfl

end

end Parser

end Script
