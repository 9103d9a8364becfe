import Script.Parse.Program
import Script.Proofs.Parse.Kinds

/-!
# Where a statement ends

Recovery looks for the end of a statement by its braces alone. Here that end is told apart from the
end of the tokens, and said once more without the search: it is the first token that is a semicolon
outside braces or a brace that closes all braces, counted from the start of the statement. What
makes up a statement in this sense is an extent. It is found whatever stands behind it, but for an
`else`.
-/

namespace Script

namespace Cursor

/-- Whether no `else` follows. -/
def NoElse (tokens : List Token) : Prop :=
  tokens.head?.map (·.kind) ≠ some .wordElse

instance (tokens : List Token) : Decidable (NoElse tokens) :=
  inferInstanceAs (Decidable (_ ≠ _))

theorem noElse_append {tokens rest : List Token} (hne : tokens ≠ []) :
    NoElse (tokens ++ rest) ↔ NoElse tokens := by
  cases tokens with
  | nil => exact absurd rfl hne
  | cons token tokens => exact Iff.rfl

theorem kind_ne_else {rest : List Token} {stop : Token} (hstop : stop.kind = .endOfFile)
    (h : NoElse rest) : (current ⟨rest, stop⟩).kind ≠ .wordElse := by
  cases rest with
  | nil =>
    show stop.kind ≠ .wordElse
    rw [hstop]
    decide
  | cons token rest => exact fun hkind => h (congrArg some hkind)

theorem noElse_rest {s : Cursor} (h : s.current.kind ≠ .wordElse) : NoElse s.rest := by
  unfold NoElse
  cases hrest : s.rest with
  | nil => simp
  | cons token rest =>
    rw [current, hrest] at h
    simpa using h

/-! ### Depths -/

/-- How a token changes the depth. -/
def braceStep (depth : Int) (token : Token) : Int :=
  match token.kind with
  | .openCurly => depth + 1
  | .closeCurly => depth - 1
  | _ => depth

theorem braceDepth_append (tokens tokens' : List Token) :
    braceDepth (tokens ++ tokens') = braceDepth tokens + braceDepth tokens' := by
  have hshift (depth : Int) (tokens : List Token) :
      tokens.foldl braceStep depth = depth + tokens.foldl braceStep 0 := by
    induction tokens generalizing depth with
    | nil => simp
    | cons token tokens ih =>
      rw [List.foldl_cons, ih, List.foldl_cons, ih (braceStep 0 token)]
      unfold braceStep
      split <;> omega
  change (tokens ++ tokens').foldl braceStep 0 = _
  rw [List.foldl_append, hshift]
  rfl

theorem braceDepth_plain {token : Token} (h : token.kind.Plain) : braceDepth [token] = 0 := by
  obtain ⟨-, h₂, h₃⟩ := h
  show braceStep 0 token = 0
  unfold braceStep
  split <;> first | contradiction | rfl

/-! ### Ends -/

/-- Whether a token ends a statement `depth` braces deep inside of it. -/
def Ends (depth : Int) (token : Token) (after : List Token) : Prop :=
  (token.kind = .semicolon ∧ depth ≤ 0) ∨
    (token.kind = .closeCurly ∧ depth - 1 ≤ 0 ∧ NoElse after)

instance (depth : Int) (token : Token) (after : List Token) : Decidable (Ends depth token after) :=
  inferInstanceAs (Decidable (_ ∨ _))

/-- The tokens behind the end of a statement, `depth` braces deep inside of it, if it ends. -/
def statementEnd (depth : Int) : List Token → Option (List Token)
  | [] => none
  | token :: rest =>
    if Ends depth token rest then some rest else statementEnd (depth + braceDepth [token]) rest

theorem skipStatement_eq (depth : Int) (tokens : List Token) :
    skipStatement depth tokens = (statementEnd depth tokens).getD [] := by
  fun_induction skipStatement depth tokens with
  | case1 => rfl
  | case2 depth token rest hkind hdepth => simp [statementEnd, Ends, hkind, hdepth]
  | case3 depth token rest hkind hdepth ih =>
    simp [statementEnd, Ends, hkind, hdepth, ih, braceDepth]
  | case4 depth token rest hkind ih => simp [statementEnd, Ends, hkind, ih, braceDepth]
  | case5 depth token rest hkind hend =>
    have hends : Ends depth token rest := .inr ⟨hkind, hend⟩
    rw [statementEnd, if_pos hends]
    rfl
  | case6 depth token rest hkind hend ih =>
    have hends : ¬Ends depth token rest := by
      rintro (⟨hsemicolon, -⟩ | ⟨-, hend'⟩)
      · rw [hkind] at hsemicolon
        cases hsemicolon
      · exact hend hend'
    have hstep : depth + braceDepth [token] = depth - 1 := by
      simp [braceDepth, hkind]
      omega
    rw [statementEnd, if_neg hends, hstep, ih]
  | case7 depth token rest h₁ h₂ h₃ ih =>
    have hends : ¬Ends depth token rest := by
      rintro (⟨hsemicolon, -⟩ | ⟨hclose, -⟩)
      · exact h₁ hsemicolon
      · exact h₃ hclose
    rw [statementEnd, if_neg hends, braceDepth_plain ⟨h₁, h₂, h₃⟩, Int.add_zero, ih]

/-- What is left behind the end of a statement is less than what was there. -/
theorem length_lt_of_statementEnd {depth : Int} {tokens rest : List Token}
    (h : statementEnd depth tokens = some rest) : rest.length < tokens.length := by
  induction tokens generalizing depth with
  | nil => cases h
  | cons token tokens ih =>
    rw [statementEnd] at h
    split at h
    · rw [Option.some.inj h]
      exact Nat.lt_succ_self _
    · exact Nat.lt_succ_of_lt (ih h)

/-- The end is found whatever stands behind it. -/
theorem statementEnd_append {depth : Int} {tokens rest : List Token}
    (h : statementEnd depth tokens = some []) (hrest : NoElse rest) :
    statementEnd depth (tokens ++ rest) = some rest := by
  induction tokens generalizing depth with
  | nil => cases h
  | cons token tokens ih =>
    rw [statementEnd] at h
    rw [List.cons_append, statementEnd]
    split at h
    · next hends =>
      obtain rfl : tokens = [] := Option.some.inj h
      have hends' : Ends depth token rest :=
        hends.imp_right fun hclose => ⟨hclose.1, hclose.2.1, hrest⟩
      exact if_pos hends'
    · next hends =>
      have hne : tokens ≠ [] := by
        rintro rfl
        cases h
      have hends' : ¬Ends depth token (tokens ++ rest) := by
        unfold Ends
        rwa [noElse_append hne]
      rw [if_neg hends', ih h]

/-! ### Extents -/

/-- Tokens of which the last is the first to end a statement, whether or not one can be read. -/
structure IsExtent (tokens : List Token) : Prop where
  ne_nil : tokens ≠ []
  kind_ne : ∀ token ∈ tokens, token.kind ≠ .endOfFile
  ends_iff : ∀ {before token after}, tokens = before ++ token :: after →
    (Ends (braceDepth before) token after ↔ after = [])

theorem statementEnd_eq_nil_iff {depth : Int} {tokens : List Token} :
    statementEnd depth tokens = some [] ↔
      tokens ≠ [] ∧ ∀ before token after, tokens = before ++ token :: after →
        (Ends (depth + braceDepth before) token after ↔ after = []) := by
  induction tokens generalizing depth with
  | nil => simp [statementEnd]
  | cons token tokens ih =>
    have hdepth (before : List Token) :
        depth + braceDepth (token :: before) = depth + braceDepth [token] + braceDepth before := by
      rw [Int.add_assoc, ← braceDepth_append]
      rfl
    have hcons : (∀ before other after, token :: tokens = before ++ other :: after →
        (Ends (depth + braceDepth before) other after ↔ after = [])) ↔
        (Ends depth token tokens ↔ tokens = []) ∧
          ∀ before other after, tokens = before ++ other :: after →
            (Ends (depth + braceDepth [token] + braceDepth before) other after ↔ after = []) := by
      constructor
      · intro h
        refine ⟨by simpa [braceDepth] using h [] token tokens rfl, ?_⟩
        rintro before other after rfl
        rw [← hdepth]
        exact h (token :: before) other after rfl
      · rintro ⟨hfirst, h⟩ before other after htokens
        cases before with
        | nil =>
          obtain ⟨rfl, rfl⟩ := List.cons.inj htokens
          simpa [braceDepth] using hfirst
        | cons first before =>
          obtain ⟨rfl, rfl⟩ := List.cons.inj htokens
          rw [hdepth]
          exact h before other after rfl
    rw [statementEnd, hcons]
    split
    · next hends =>
      simp only [hends, true_iff, Option.some.injEq]
      constructor
      · rintro rfl
        exact ⟨by simp, rfl, by simp⟩
      · exact fun h => h.2.1
    · next hends =>
      rw [ih]
      simp only [hends, false_iff]
      exact ⟨fun h => ⟨by simp, h⟩, fun h => h.2⟩

theorem isExtent_iff {tokens : List Token} :
    IsExtent tokens ↔
      (∀ token ∈ tokens, token.kind ≠ .endOfFile) ∧ statementEnd 0 tokens = some [] := by
  rw [statementEnd_eq_nil_iff]
  simp only [Int.zero_add]
  constructor
  · intro h
    exact ⟨h.kind_ne, h.ne_nil, fun _ _ _ => h.ends_iff⟩
  · rintro ⟨hkind, hne, hends⟩
    exact ⟨hne, hkind, fun htokens => hends _ _ _ htokens⟩

instance (tokens : List Token) : Decidable (IsExtent tokens) :=
  decidable_of_iff _ isExtent_iff.symm

end Cursor

end Script
