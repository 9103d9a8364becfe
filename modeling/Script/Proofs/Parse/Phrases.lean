import Script.Proofs.Parse.Grammar
import Script.Proofs.Parse.Kinds

/-!
# How phrases begin

An expression begins with one of nine kinds of tokens and holds no assignment operator, so one token
more than the first tells an expression from an assignment. A statement never begins with what goes
on with or closes the phrase before it.
-/

namespace Script.Grammar

/-- The kinds that an expression can begin with. -/
def openings : List TokenKind :=
  [.number, .string, .identifier, .wordTrue, .wordFalse, .openParen, .openBracket, .dash, .not]

theorem opening_of_unary {kind : TokenKind} {op : UnaryOp} (h : UnaryOp.ofKind? kind = some op) :
    kind ∈ openings := by
  cases kind <;> first | decide | cases h

theorem not_assigns_of_opening {kind : TokenKind} (h : kind ∈ openings) : ¬kind.Assigns := by
  cases kind <;> first | decide | exact absurd h (by decide)

theorem not_assigns_of_operator {level : Level} {kind : TokenKind} (h : kind ∈ level.operators) :
    ¬kind.Assigns := by
  cases level <;> cases kind <;> first | decide | exact absurd h (by decide)

theorem Commas.of_mem {phrases : List (List Token)} {tokens : List Token} {token : Token}
    (h : Commas phrases tokens) (hmem : token ∈ tokens) :
    token.kind = .comma ∨ ∃ phrase ∈ phrases, token ∈ phrase := by
  induction h with
  | nil => cases hmem
  | @last phrase => exact .inr ⟨phrase, List.mem_singleton_self phrase, hmem⟩
  | @cons phrase rest phrases comma hcomma _ ih =>
    simp only [List.mem_append, List.mem_cons] at hmem
    obtain hmem | rfl | hmem := hmem
    · exact .inr ⟨phrase, List.mem_cons_self, hmem⟩
    · exact .inl hcomma
    · obtain hkind | ⟨phrase', hphrase, hmem⟩ := ih hmem
      · exact .inl hkind
      · exact .inr ⟨phrase', List.mem_cons_of_mem phrase hphrase, hmem⟩

section

variable {level : Level} {tokens : List Token} {e : Expr}

theorem Derives.first (h : Derives level tokens e) :
    ∃ token rest, tokens = token :: rest ∧ token.kind ∈ openings := by
  have behind {before after : List Token} :
      (∃ token rest, before = token :: rest ∧ token.kind ∈ openings) →
      ∃ token rest, before ++ after = token :: rest ∧ token.kind ∈ openings := by
    rintro ⟨token, rest, rfl, hkind⟩
    exact ⟨token, rest ++ after, rfl, hkind⟩
  induction h with
  | number hkind _ => exact ⟨_, _, rfl, by rw [hkind]; decide⟩
  | string hkind => exact ⟨_, _, rfl, by rw [hkind]; decide⟩
  | symbol hkind => exact ⟨_, _, rfl, by rw [hkind]; decide⟩
  | true hkind => exact ⟨_, _, rfl, by rw [hkind]; decide⟩
  | false hkind => exact ⟨_, _, rfl, by rw [hkind]; decide⟩
  | group hkind _ _ _ => exact ⟨_, _, rfl, by rw [hkind]; decide⟩
  | list hkind _ _ _ _ => exact ⟨_, _, rfl, by rw [hkind]; decide⟩
  | unary hop _ _ => exact ⟨_, _, rfl, opening_of_unary hop⟩
  | call _ _ _ _ _ ih _ => exact behind ih
  | index _ _ _ _ ih _ => exact behind ih
  | binary _ _ _ _ ih _ => exact behind ih
  | tighter _ ih => exact ih

theorem Derives.ne_nil (h : Derives level tokens e) : tokens ≠ [] := by
  obtain ⟨token, rest, rfl, -⟩ := h.first
  exact List.cons_ne_nil token rest

/-- An expression holds no assignment. -/
theorem Derives.not_assigns (h : Derives level tokens e) :
    ∀ token ∈ tokens, ¬token.kind.Assigns := by
  have one {kind : TokenKind} (hkind : kind ∈ openings) {token : Token} (h : token.kind = kind) :
      ∀ other ∈ [token], ¬other.kind.Assigns := by
    intro other hmem
    rw [List.mem_singleton.1 hmem, h]
    exact not_assigns_of_opening hkind
  have listed {items : List (List Token × Expr)} {tokens : List Token}
      (hcommas : Commas (items.map Prod.fst) tokens)
      (ih : ∀ item ∈ items, ∀ token ∈ item.1, ¬token.kind.Assigns) :
      ∀ token ∈ tokens, ¬token.kind.Assigns := by
    intro token hmem
    obtain hkind | ⟨phrase, hphrase, hmem⟩ := hcommas.of_mem hmem
    · rw [hkind]
      decide
    · obtain ⟨item, hitem, rfl⟩ := List.mem_map.1 hphrase
      exact ih item hitem token hmem
  have between {opening closing : Token} {tokens : List Token}
      (hopening : ¬opening.kind.Assigns) (htokens : ∀ token ∈ tokens, ¬token.kind.Assigns)
      (hclosing : ¬closing.kind.Assigns) :
      ∀ token ∈ opening :: (tokens ++ [closing]), ¬token.kind.Assigns := by
    simpa [or_imp, forall_and] using ⟨hopening, htokens, hclosing⟩
  induction h with
  | number hkind _ => exact one (by decide) hkind
  | string hkind => exact one (by decide) hkind
  | symbol hkind => exact one (by decide) hkind
  | true hkind => exact one (by decide) hkind
  | false hkind => exact one (by decide) hkind
  | group hopening _ hclosing ih =>
    exact between (by rw [hopening]; decide) ih (by rw [hclosing]; decide)
  | list hopening _ hcommas hclosing ih =>
    exact between (by rw [hopening]; decide) (listed hcommas ih) (by rw [hclosing]; decide)
  | call _ hopening _ hcommas hclosing ih ihItems =>
    refine List.forall_mem_append.2 ⟨ih, ?_⟩
    exact between (by rw [hopening]; decide) (listed hcommas ihItems) (by rw [hclosing]; decide)
  | index _ hopening _ hclosing ih ihIndex =>
    refine List.forall_mem_append.2 ⟨ih, ?_⟩
    exact between (by rw [hopening]; decide) ihIndex (by rw [hclosing]; decide)
  | unary hop _ ih =>
    exact List.forall_mem_cons.2 ⟨not_assigns_of_opening (opening_of_unary hop), ih⟩
  | binary hmem _ _ _ ihLeft ihRight =>
    refine List.forall_mem_append.2 ⟨ihLeft, ?_⟩
    exact List.forall_mem_cons.2 ⟨not_assigns_of_operator hmem, ihRight⟩
  | tighter _ ih => exact ih

end

theorem DerivesDeclaration.first {start : Position} {global : Bool} {tokens : List Token}
    {st : Stmt} (h : DerivesDeclaration start global tokens st) :
    ∃ token rest, tokens = token :: rest ∧ (token.kind = .wordLet ∨ token.kind = .wordConst) := by
  obtain ⟨hopening, _, _, _, _, _⟩ := h
  exact ⟨_, _, rfl, hopening⟩

theorem DerivesConditional.first {tokens : List Token} {branch : Conditional}
    (h : DerivesConditional tokens branch) :
    ∃ token rest, tokens = token :: rest ∧ token.kind = .wordIf := by
  cases h with
  | plain hkind _ _ => exact ⟨_, _, rfl, hkind⟩
  | withBlock hkind _ _ _ _ => exact ⟨_, _, rfl, hkind⟩
  | withConditional hkind _ _ _ _ => exact ⟨_, _, rfl, hkind⟩

/-- The kinds that no statement begins with: they go on with what comes before, or close it. -/
def ends : List TokenKind :=
  [.wordElse, .closeCurly, .endOfFile]

theorem not_ends_of_opening {kind : TokenKind} (h : kind ∈ openings) : kind ∉ ends := by
  cases kind <;> first | decide | exact absurd h (by decide)

theorem DerivesStmt.first {tokens : List Token} {st : Stmt} (h : DerivesStmt tokens st) :
    ∃ token rest, tokens = token :: rest ∧ token.kind ∉ ends := by
  cases h with
  | importNames hkind _ _ _ _ => exact ⟨_, _, rfl, by rw [hkind]; decide⟩
  | declaration h =>
    obtain ⟨token, rest, htokens, hkind⟩ := h.first
    refine ⟨token, rest, htokens, ?_⟩
    obtain hkind | hkind := hkind
    · rw [hkind]
      decide
    · rw [hkind]
      decide
  | globalDeclaration hkind _ => exact ⟨_, _, rfl, by rw [hkind]; decide⟩
  | reassignment hkind _ _ _ => exact ⟨_, _, rfl, by rw [hkind]; decide⟩
  | compound hkind _ _ _ => exact ⟨_, _, rfl, by rw [hkind]; decide⟩
  | function hkind _ _ _ _ _ _ _ => exact ⟨_, _, rfl, by rw [hkind]; decide⟩
  | returnNothing hkind _ => exact ⟨_, _, rfl, by rw [hkind]; decide⟩
  | returnValue hkind _ _ => exact ⟨_, _, rfl, by rw [hkind]; decide⟩
  | conditional h =>
    obtain ⟨token, rest, htokens, hkind⟩ := h.first
    exact ⟨token, rest, htokens, by rw [hkind]; decide⟩
  | loop hkind _ _ => exact ⟨_, _, rfl, by rw [hkind]; decide⟩
  | expression h _ =>
    obtain ⟨token, rest, rfl, hkind⟩ := h.first
    exact ⟨token, rest ++ _, rfl, not_ends_of_opening hkind⟩

end Script.Grammar
